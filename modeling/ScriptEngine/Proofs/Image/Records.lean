/-
This file is about the records that the engine's own codec makes of images. A field that was
written, or left out at its zero, is read as the value it was written for; so each record gives
back the function, the instruction or the image that it describes, as long as its texts are
well-formed and but for the sign of a zero, which is left out like any other zero.
-/

import Mathlib
import ScriptEngine.Image.Cbor
import ScriptEngine.Proofs.Image.Codecs
import ScriptEngine.Proofs.Image.Reading

namespace ScriptEngine

/-! ### Codes -/

theorem Opcode.ofCode_code (opcode : Opcode) : ofCode opcode.code = opcode := by
  cases opcode with
  | unknown beyond =>
    have value : (45 + beyond.val).toUInt8.toNat = 45 + beyond.val := by
      have := beyond.isLt
      simp
      omega
    have none : valid[45 + beyond.val]? = none := List.getElem?_eq_none (Nat.le_add_right ..)
    unfold code ofCode
    rw [value, none]
    simp
  | _ => decide

theorem DatumKind.ofCode_code (kind : DatumKind) : ofCode kind.code = kind := by
  cases kind with
  | unknown beyond =>
    have value : (6 + beyond.val).toUInt8.toNat = 6 + beyond.val := by
      have := beyond.isLt
      simp
      omega
    have none : valid[6 + beyond.val]? = none := List.getElem?_eq_none (Nat.le_add_right ..)
    unfold code ofCode
    rw [value, none]
    simp
  | _ => decide

theorem ConstructKind.ofCode_code (kind : ConstructKind) : ofCode kind.code = kind := by
  cases kind with
  | unknown beyond =>
    have value : (4 + beyond.val).toUInt8.toNat = beyond.val + 4 := by
      have := beyond.isLt
      simp
      omega
    unfold code ofCode
    rw [value]
    simp
  | _ => decide

namespace Item

variable {Value Result : Type}

/-! ### What items hold -/

/-- An item holds a value: it is read as the value wherever it stands. -/
def Holds (read : Item → Option Value) (item : Item) (value : Value) : Prop :=
  ∀ zero, orZero zero read item = some value

theorem holds_of_bare {read : Item → Option Value} {item : Item} {value : Value}
    (untagged : item.untagged? = some item) (present : item.isAbsent = false)
    (found : read item = some value) : Holds read item value := by
  intro zero
  unfold orZero
  rw [untagged]
  show (if item.isAbsent then some zero else read item) = some value
  rw [present, found]
  rfl

theorem holds_int64 (value : Int64) : Holds int64? (Image.Cbor.ofInt64 value) value := by
  have below := value.toInt_lt
  have above := value.le_toInt
  have whole : (Image.Cbor.ofInt64 value).integer? = some value.toInt := by
    unfold Image.Cbor.ofInt64
    cases cases : value.toInt with
    | ofNat magnitude =>
      have fits : magnitude < UInt64.size := by
        rw [cases, Int.ofNat_eq_natCast] at below
        norm_num [UInt64.size]
        omega
      exact if_pos fits
    | negSucc magnitude =>
      have fits : magnitude < Nat.pow 2 63 := by
        rw [cases, Int.negSucc_eq] at above
        norm_num
        omega
      show (if magnitude < Nat.pow 2 63 then some (-1 - (magnitude : ℤ)) else none) = _
      rw [if_pos fits, Int.negSucc_eq]
      congr 1
      ring
  have found : int64? (Image.Cbor.ofInt64 value) = some value := by
    unfold int64?
    rw [whole]
    show (if value.toInt ≤ Int64.maxValue.toInt then some (Int64.ofInt value.toInt) else none) = _
    rw [if_pos, Int64.ofInt_toInt]
    have most : Int64.maxValue.toInt = 2 ^ 63 - 1 := by decide
    omega
  unfold Image.Cbor.ofInt64 at found ⊢
  cases cases : value.toInt with
  | ofNat magnitude => exact holds_of_bare rfl rfl (cases ▸ found)
  | negSucc magnitude => exact holds_of_bare rfl rfl (cases ▸ found)

theorem holds_byte (value : UInt8) : Holds byte? (Image.Cbor.ofByte value) value := by
  have below := value.toNat_lt
  refine holds_of_bare rfl rfl ?_
  have whole : (Image.Cbor.ofByte value).integer? = some (value.toNat : ℤ) :=
    if_pos (below.trans (by decide))
  unfold byte?
  rw [whole]
  simp only [Option.bind_eq_bind, Option.bind_some]
  rw [if_pos (by omega)]
  simp

theorem holds_text {text : Text} (utf8 : text.isUtf8) : Holds text? (ofText text) text := by
  refine holds_of_bare rfl rfl ?_
  simp [ofText, text?, utf8]

theorem holds_bool (value : Bool) : Holds bool? (ofBool value) value := by
  cases value with
  | false => exact holds_of_bare rfl rfl rfl
  | true => exact holds_of_bare rfl rfl rfl

theorem holds_number (value : Float) : Holds number? (.float value) value :=
  holds_of_bare rfl rfl rfl

theorem holds_list {read : Item → Option Result} {write : Value → Item} {change : Value → Result}
    {values : List Value} (zero : Result)
    (holds : ∀ value ∈ values, Holds read (write value) (change value)) :
    Holds (list? zero read) (.sequence (values.map write)) (values.map change) := by
  refine holds_of_bare rfl rfl ?_
  show (values.map write).mapM (orZero zero read) = _
  induction values with
  | nil => rfl
  | cons value others ih =>
    rw [List.map_cons, List.mapM_cons, holds value List.mem_cons_self zero,
      ih fun other member => holds other (List.mem_cons_of_mem _ member)]
    rfl

/-! ### Fields of a record -/

/-- The entries of the fields that are given, by their numbers. -/
def entriesOf (fields : List (ℕ × Option Item)) : Record :=
  fields.filterMap fun (field, item?) => item?.map fun item => (.number (Int64.ofNat field), item)

theorem entriesOf_cons_some (field : ℕ) (item : Item) (rest : List (ℕ × Option Item)) :
    entriesOf ((field, some item) :: rest) =
      (.number (Int64.ofNat field), item) :: entriesOf rest := rfl

theorem entriesOf_cons_none (field : ℕ) (rest : List (ℕ × Option Item)) :
    entriesOf ((field, none) :: rest) = entriesOf rest := rfl

theorem record?_ofFields (fields : List (ℕ × Option Item)) :
    (ofFields fields).record? = some (entriesOf fields) := by
  induction fields with
  | nil => rfl
  | cons entry rest ih =>
    obtain ⟨field, item?⟩ := entry
    cases item? with
    | none => exact ih
    | some item =>
      have whole : (ofFields ((field, some item) :: rest)).record? =
          (do return (Key.number (Int64.ofNat field), item) :: (← (ofFields rest).record?)) :=
        List.mapM_cons
      rw [whole, ih]
      rfl

theorem names_number {field other : ℕ} (small : field < 2 ^ 63) (otherSmall : other < 2 ^ 63) :
    (Key.number (Int64.ofNat field)).names other = decide (field = other) := by
  have same : Int64.ofNat field = Int64.ofNat other ↔ field = other := by
    rw [← Int64.toInt_inj, Int64.toInt_ofNat_of_lt small, Int64.toInt_ofNat_of_lt otherSmall,
      Int.natCast_inj]
  unfold Key.names
  by_cases equal : field = other
  · simp [equal]
  · simp [equal, same]

/-- What a field is written as gives a value: an item that holds it, or nothing for the zero. -/
def Gives (zero : Value) (read : Item → Option Value) (item? : Option Item)
    (value : Value) : Prop :=
  item?.elim (some zero) (orZero zero read) = some value

theorem Holds.gives {read : Item → Option Value} {item : Item} {value : Value}
    (holds : Holds read item value) (zero : Value) : Gives zero read (some item) value := holds zero

theorem gives_omitting [DecidableEq Value] {read : Item → Option Value} {value : Value}
    (zero : Value) (write : Value → Item) (holds : Holds read (write value) value) :
    Gives zero read (omitting zero value write) value := by
  unfold omitting
  split
  · case isTrue equal => exact congrArg some equal.symm
  · exact holds.gives zero

/-- The fields of a record have numbers of their own, each a number of 64 bits. -/
structure Numbered (fields : List (ℕ × Option Item)) : Prop where
  distinct : (fields.map Prod.fst).Nodup
  small : ∀ number ∈ fields.map Prod.fst, number < 2 ^ 63

/-- Fields that are numbered from one on. -/
theorem numbered_of_consecutive {fields : List (ℕ × Option Item)}
    (consecutive : fields.map Prod.fst = List.range' 1 fields.length)
    (few : fields.length < 2 ^ 62) : Numbered fields := by
  refine ⟨consecutive ▸ List.nodup_range', fun number member => ?_⟩
  rw [consecutive, List.mem_range'_1] at member
  omega

theorem find?_entriesOf_eq_none {fields : List (ℕ × Option Item)} {field : ℕ}
    (small : ∀ number ∈ fields.map Prod.fst, number < 2 ^ 63) (fieldSmall : field < 2 ^ 63)
    (absent : field ∉ fields.map Prod.fst) :
    (entriesOf fields).find? (fun entry => entry.1.names field) = none := by
  rw [List.find?_eq_none]
  rintro ⟨key, item⟩ member
  obtain ⟨⟨number, written⟩, among, entry⟩ := List.mem_filterMap.mp member
  obtain ⟨_, _, same⟩ := Option.map_eq_some_iff.mp entry
  have numberMember : number ∈ fields.map Prod.fst := List.mem_map_of_mem among
  have differs : number ≠ field := fun equal => absent (equal ▸ numberMember)
  rw [← (Prod.mk.inj same).1, names_number (small number numberMember) fieldSmall]
  simp [differs]

theorem find?_entriesOf {fields : List (ℕ × Option Item)} {field : ℕ} {item? : Option Item}
    (numbered : Numbered fields) (member : (field, item?) ∈ fields) :
    (entriesOf fields).find? (fun entry => entry.1.names field) =
      item?.map fun item => (.number (Int64.ofNat field), item) := by
  have fieldSmall := numbered.small field (List.mem_map_of_mem member)
  induction fields with
  | nil => cases member
  | cons entry rest ih =>
    obtain ⟨other, otherItem?⟩ := entry
    have distinct := List.nodup_cons.mp numbered.distinct
    have otherSmall := numbered.small other List.mem_cons_self
    have restSmall := fun number among => numbered.small number (List.mem_cons_of_mem _ among)
    rcases List.mem_cons.mp member with same | later
    · obtain ⟨rfl, rfl⟩ := Prod.mk.inj same
      cases item? with
      | some item =>
        rw [entriesOf_cons_some,
          List.find?_cons_of_pos (by simp [names_number fieldSmall fieldSmall])]
        rfl
      | none =>
        rw [entriesOf_cons_none, find?_entriesOf_eq_none restSmall fieldSmall distinct.1]
        rfl
    · have fieldMember : field ∈ rest.map Prod.fst := List.mem_map_of_mem later
      have differs : other ≠ field := fun equal => distinct.1 (equal ▸ fieldMember)
      rw [← ih ⟨distinct.2, restSmall⟩ later]
      cases otherItem? with
      | none => rw [entriesOf_cons_none]
      | some otherItem =>
        rw [entriesOf_cons_some,
          List.find?_cons_of_neg (by simp [names_number otherSmall fieldSmall, differs])]

/-- A field of `entriesOf` is read as what it was written as. -/
theorem field_entriesOf_eq {fields : List (ℕ × Option Item)} {field : ℕ} {item? : Option Item}
    (zero : Value) (read : Item → Option Value) (numbered : Numbered fields)
    (member : (field, item?) ∈ fields) :
    (entriesOf fields).field field zero read = item?.elim (some zero) (orZero zero read) := by
  have found := find?_entriesOf numbered member
  unfold Record.field
  rw [found]
  cases item? with
  | none => rfl
  | some item => rfl

theorem field_entriesOf {fields : List (ℕ × Option Item)} {field : ℕ} {item? : Option Item}
    {zero value : Value} {read : Item → Option Value} (numbered : Numbered fields)
    (gives : Gives zero read item? value) (member : (field, item?) ∈ fields) :
    (entriesOf fields).field field zero read = some value :=
  (field_entriesOf_eq zero read numbered member).trans gives

end Item

namespace Image.Cbor

open Item (Holds Plain gives_omitting record?_ofFields field_entriesOf)

variable {limit : ℕ} {image : Image} {declaration : Declaration}

/-! ### Functions -/

theorem holds_ofDeclaration (legible : declaration.Legible limit) :
    Holds declaration? (ofDeclaration declaration) declaration := by
  have params : Holds (Item.list? [] Item.text?)
      (.sequence (declaration.params.map Item.ofText)) declaration.params := by
    have whole : Holds (Item.list? [] Item.text?)
        (.sequence (declaration.params.map Item.ofText)) (declaration.params.map id) :=
      Item.holds_list [] fun param member => Item.holds_text (legible.params param member)
    rwa [List.map_id] at whole
  refine Item.holds_of_bare rfl rfl ?_
  unfold declaration? ofDeclaration
  rw [record?_ofFields]
  simp only [Option.bind_eq_bind, Option.bind_some]
  have numbered : ∀ {first second third fourth : Option Item},
      Item.Numbered [(1, first), (2, second), (3, third), (4, fourth)] :=
    Item.numbered_of_consecutive rfl (by simp)
  refine Option.bind_eq_some_iff.mpr ⟨_, field_entriesOf numbered
    ((Item.holds_text legible.name).gives _) (by simp), ?_⟩
  refine Option.bind_eq_some_iff.mpr ⟨_, field_entriesOf numbered
    (gives_omitting _ (fun params => .sequence (params.map Item.ofText)) params) (by simp), ?_⟩
  refine Option.bind_eq_some_iff.mpr ⟨_, field_entriesOf numbered
    ((Item.holds_int64 declaration.entry).gives _) (by simp), ?_⟩
  refine Option.bind_eq_some_iff.mpr ⟨_, field_entriesOf numbered
    (gives_omitting _ ofByte (Item.holds_byte declaration.constructs.code)) (by simp), ?_⟩
  rw [ConstructKind.ofCode_code]
  rfl

/-! ### Instructions -/

/-- A number that is left out at zero is read as `Number.unsigned`, without the sign of it. -/
theorem gives_number (number : Float) :
    Item.Gives 0 Item.number? (if number == 0 then none else some (.float number))
      (Number.unsigned number) := by
  unfold Number.unsigned
  split
  · rfl
  · exact (Item.holds_number number).gives 0

theorem holds_ofWritten {written : Written} (utf8 : written.text.isUtf8) :
    Holds written? (ofWritten written) written.unsigned := by
  refine Item.holds_of_bare rfl rfl ?_
  unfold written? ofWritten
  rw [record?_ofFields]
  simp only [Option.bind_eq_bind, Option.bind_some]
  have numbered : ∀ {first second third fourth fifth sixth seventh : Option Item},
      Item.Numbered [(1, first), (2, second), (3, third), (4, fourth), (5, fifth), (6, sixth),
        (7, seventh)] :=
    Item.numbered_of_consecutive rfl (by simp)
  refine Option.bind_eq_some_iff.mpr ⟨_, field_entriesOf numbered
    ((Item.holds_byte written.opcode.code).gives _) (by simp), ?_⟩
  refine Option.bind_eq_some_iff.mpr ⟨_, field_entriesOf numbered
    (gives_omitting _ ofInt64 (Item.holds_int64 written.jump)) (by simp), ?_⟩
  refine Option.bind_eq_some_iff.mpr ⟨_, field_entriesOf numbered
    (gives_omitting _ ofByte (Item.holds_byte written.kind.code)) (by simp), ?_⟩
  refine Option.bind_eq_some_iff.mpr ⟨_, field_entriesOf numbered
    (gives_number written.number) (by simp), ?_⟩
  refine Option.bind_eq_some_iff.mpr ⟨_, field_entriesOf numbered
    (gives_omitting _ Item.ofText (Item.holds_text utf8)) (by simp), ?_⟩
  refine Option.bind_eq_some_iff.mpr ⟨_, field_entriesOf numbered
    (gives_omitting _ Item.ofBool (Item.holds_bool written.bool)) (by simp), ?_⟩
  refine Option.bind_eq_some_iff.mpr ⟨_, field_entriesOf numbered
    (gives_omitting _ ofInt64 (Item.holds_int64 written.function)) (by simp), ?_⟩
  rw [Opcode.ofCode_code, DatumKind.ofCode_code]
  rfl

/-! ### Images -/

theorem holds_ofImage (legible : image.Legible limit) :
    Holds image? (ofImage image) image.unsigned := by
  have code : Holds (Item.list? {} written?) (.sequence (image.code.map ofWritten))
      (image.code.map Written.unsigned) :=
    Item.holds_list _ fun written member => holds_ofWritten (legible.texts written member)
  have functions : Holds (Item.list? {} declaration?)
      (.sequence (image.functions.map ofDeclaration)) image.functions := by
    have whole : Holds (Item.list? {} declaration?)
        (.sequence (image.functions.map ofDeclaration)) (image.functions.map id) :=
      Item.holds_list _ fun declaration member =>
        holds_ofDeclaration (legible.declarations declaration member)
    rwa [List.map_id] at whole
  refine Item.holds_of_bare rfl rfl ?_
  unfold image? ofImage
  rw [record?_ofFields]
  simp only [Option.bind_eq_bind, Option.bind_some]
  have numbered : ∀ {first second third fourth fifth : Option Item},
      Item.Numbered [(1, first), (2, second), (3, third), (4, fourth), (5, fifth)] :=
    Item.numbered_of_consecutive rfl (by simp)
  refine Option.bind_eq_some_iff.mpr ⟨_, field_entriesOf numbered
    ((Item.holds_int64 image.version).gives _) (by simp), ?_⟩
  refine Option.bind_eq_some_iff.mpr ⟨_, field_entriesOf numbered
    ((Item.holds_int64 image.start).gives _) (by simp), ?_⟩
  refine Option.bind_eq_some_iff.mpr ⟨_, field_entriesOf numbered
    ((Item.holds_int64 image.stop).gives _) (by simp), ?_⟩
  refine Option.bind_eq_some_iff.mpr ⟨_, field_entriesOf numbered (code.gives _) (by simp), ?_⟩
  refine Option.bind_eq_some_iff.mpr ⟨_, field_entriesOf numbered
    (gives_omitting _ (fun items => .sequence (items.map ofDeclaration)) functions) (by simp), ?_⟩
  rfl

/-! ### Bytes -/

section Plain

variable {nesting : ℕ}

theorem plain_ofInt64 (value : Int64) : Plain nesting (ofInt64 value) := by
  have below := value.toInt_lt
  have above := value.le_toInt
  unfold ofInt64
  cases cases : value.toInt with
  | ofNat magnitude =>
    rw [cases, Int.ofNat_eq_natCast] at below
    exact .unsigned (by omega)
  | negSucc magnitude =>
    rw [cases, Int.negSucc_eq] at above
    exact .negative (by omega)

theorem plain_ofByte (value : UInt8) : Plain nesting (ofByte value) :=
  .unsigned (value.toNat_lt.trans (by decide))

theorem plain_ofBool (value : Bool) : Plain nesting (Item.ofBool value) := by
  cases value <;> exact .simple (by decide)

theorem plain_ofText {text : Text} (short : text.length < 2 ^ 63) :
    Plain nesting (Item.ofText text) :=
  .text (short.trans (by decide))

theorem plain_omitting {Value : Type} [DecidableEq Value] {zero value : Value}
    {write : Value → Item} (plain : Plain nesting (write value)) :
    ∀ item ∈ Item.omitting zero value write, Plain nesting item := by
  intro item written
  unfold Item.omitting at written
  split at written
  · cases written
  · cases written
    exact plain

theorem plain_ofFields {fields : List (ℕ × Option Item)}
    (small : ∀ number ∈ fields.map Prod.fst, number < 2 ^ 63)
    (few : fields.length ≤ Item.sizeLimit)
    (plain : ∀ entry ∈ fields, ∀ item ∈ entry.2, Plain nesting item) :
    Plain (nesting + 1) (Item.ofFields fields) := by
  have given : ∀ entry ∈ fields.filterMap fun (field, item?) =>
        item?.map fun item => (Item.unsigned field, item),
      Plain nesting entry.1 ∧ Plain nesting entry.2 := by
    intro entry member
    obtain ⟨⟨field, item?⟩, among, written⟩ := List.mem_filterMap.mp member
    obtain ⟨item, rfl, rfl⟩ := Option.map_eq_some_iff.mp written
    have fieldSmall := small field (List.mem_map_of_mem among)
    exact ⟨.unsigned (by omega), plain _ among item rfl⟩
  exact .map ((List.length_filterMap_le _ _).trans few) (fun entry member => (given entry member).1)
    fun entry member => (given entry member).2

theorem plain_sequence {Value : Type} {write : Value → Item} {values : List Value}
    (few : values.length ≤ Item.sizeLimit)
    (plain : ∀ value ∈ values, Plain nesting (write value)) :
    Plain (nesting + 1) (.sequence (values.map write)) := by
  refine .sequence (by rw [List.length_map]; exact few) fun item member => ?_
  obtain ⟨value, among, rfl⟩ := List.mem_map.mp member
  exact plain value among

theorem plain_ofDeclaration (sized : declaration.Sized)
    (few : declaration.params.length ≤ Item.sizeLimit) :
    Plain (nesting + 2) (ofDeclaration declaration) := by
  refine plain_ofFields (by simp) (show 4 ≤ Item.sizeLimit by decide) ?_
  simp only [List.forall_mem_cons, List.not_mem_nil, false_imp_iff, implies_true, and_true,
    Option.mem_some_iff, forall_eq']
  exact ⟨plain_ofText sized.name,
    plain_omitting (plain_sequence few fun param among => plain_ofText (sized.params param among)),
    plain_ofInt64 _, plain_omitting (plain_ofByte _)⟩

theorem plain_ofWritten {written : Written} (short : written.text.length < 2 ^ 63) :
    Plain (nesting + 1) (ofWritten written) := by
  refine plain_ofFields (by simp) (show 7 ≤ Item.sizeLimit by decide) ?_
  simp only [List.forall_mem_cons, List.not_mem_nil, false_imp_iff, implies_true, and_true,
    Option.mem_some_iff, forall_eq']
  refine ⟨plain_ofByte _, plain_omitting (plain_ofInt64 _), plain_omitting (plain_ofByte _), ?_,
    plain_omitting (plain_ofText short), plain_omitting (plain_ofBool _),
    plain_omitting (plain_ofInt64 _)⟩
  intro item member
  split at member
  · cases member
  · cases member
    exact .float

theorem plain_code (few : image.code.length ≤ Item.sizeLimit) (sized : image.Sized) :
    Plain (nesting + 2) (.sequence (image.code.map ofWritten)) :=
  plain_sequence few fun written member => plain_ofWritten (sized.texts written member)

/-- An image none of whose sequences has too many members is one `Plain` item. -/
theorem plain_ofImage (sized : image.Sized) (few : image.code.length ≤ Item.sizeLimit)
    (fewFunctions : image.functions.length ≤ Item.sizeLimit)
    (fewParams : ∀ declaration ∈ image.functions,
      declaration.params.length ≤ Item.sizeLimit) : Plain (nesting + 4) (ofImage image) := by
  refine plain_ofFields (by simp) (show 5 ≤ Item.sizeLimit by decide) ?_
  simp only [List.forall_mem_cons, List.not_mem_nil, false_imp_iff, implies_true, and_true,
    Option.mem_some_iff, forall_eq']
  refine ⟨plain_ofInt64 _, plain_ofInt64 _, plain_ofInt64 _, plain_code few sized,
    plain_omitting (plain_sequence fewFunctions fun declaration member => ?_)⟩
  exact plain_ofDeclaration (sized.declarations declaration member) (fewParams declaration member)

end Plain

/-- What was written from a `Legible` image is read as the image without the signs of its zeros. -/
theorem unmarshal_of_legible (sized : image.Sized) (legible : image.Legible Item.sizeLimit) :
    codec.unmarshal (ofImage image).write = some image.unsigned := by
  have plain : Plain Item.nestingLimit (ofImage image) :=
    plain_ofImage sized legible.code legible.functions fun declaration member =>
      (legible.declarations declaration member).few
  show (Item.read? (ofImage image).write).bind (Item.orZero {} image?) = _
  rw [plain.read?_write, Option.bind_some]
  exact holds_ofImage legible {}

end Image.Cbor

end ScriptEngine
