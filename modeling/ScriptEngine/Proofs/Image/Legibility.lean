/-
This file says which images the engine's own codec reads. A reader gives up on a sequence with more
members than it admits, wherever it stands, and refuses a text that is not well-formed; everything
else in an image it takes. So what was written from an image is read only if the image is legible.
-/

import Mathlib
import ScriptEngine.Proofs.Image.Records

namespace ScriptEngine

namespace Item

variable {Value Result : Type}

/-! ### Readers that fail on what was written -/

/-- A reader fails on certain bytes, whatever they stand in front of. -/
def Fails (read : Reading Value) (bytes : Text) : Prop :=
  ∀ rest, read (bytes ++ rest) = none

theorem Fails.bind {first : Reading Value} {left : Text} (fails : Fails first left)
    (next : Value → Reading Result) (right : Text) : Fails (first >>= next) (left ++ right) := by
  intro rest
  show (first (left ++ right ++ rest)).bind (fun step => next step.1 step.2) = _
  rw [List.append_assoc, fails]
  rfl

theorem Takes.bind_fails {first : Reading Value} {next : Value → Reading Result}
    {left right : Text} {value : Value} (takes : Takes first left value)
    (fails : Fails (next value) right) : Fails (first >>= next) (left ++ right) := by
  intro rest
  show (first (left ++ right ++ rest)).bind (fun step => next step.1 step.2) = _
  rw [List.append_assoc, takes]
  exact fails rest

theorem Fails.map {read : Reading Value} {bytes : Text} (fails : Fails read bytes)
    (change : Value → Result) : Fails (do return change (← read)) bytes := by
  have whole := fails.bind (fun value => Pure.pure (change value)) []
  rwa [List.append_nil] at whole

/-- Reading several values `Fails` with the first one on which reading fails. -/
theorem fails_readCount {read : Reading Value} {write : Value → Text} {before : List Value}
    {value : Value} (takes : ∀ other ∈ before, Takes read (write other) other)
    (fails : Fails read (write value)) (after : List Value) :
    Fails (readCount read (before ++ value :: after).length)
      ((before ++ value :: after).flatMap write) := by
  induction before with
  | nil => exact fails.bind _ _
  | cons other before inductionHypothesis =>
    obtain ⟨first, others⟩ := List.forall_mem_cons.mp takes
    exact first.bind_fails ((inductionHypothesis others).map _)

/-! ### Items with too many members -/

/-- An item that is plain up to a sequence with more members than a reader admits. -/
inductive Oversized : (nesting : ℕ) → Item → Prop where
  | sequence {nesting : ℕ} {items : List Item} (fits : items.length < 2 ^ 64)
    (many : sizeLimit < items.length) : Oversized (nesting + 1) (.sequence items)
  | member {nesting : ℕ} {before after : List Item} {item : Item}
    (few : (before ++ item :: after).length ≤ sizeLimit)
    (plain : ∀ other ∈ before, Plain nesting other) (oversized : Oversized nesting item) :
    Oversized (nesting + 1) (.sequence (before ++ item :: after))
  | entry {nesting : ℕ} {before after : List (Item × Item)} {key item : Item}
    (few : (before ++ (key, item) :: after).length ≤ sizeLimit)
    (plain : ∀ other ∈ before, Plain nesting other.1 ∧ Plain nesting other.2)
    (plainKey : Plain nesting key) (oversized : Oversized nesting item) :
    Oversized (nesting + 1) (.map (before ++ (key, item) :: after))

theorem atTag_head {major argument : ℕ} (majorLt : major < 8) (notTag : major ≠ 6)
    (bytes : Text) : atTag (head major argument ++ bytes) = false := by
  obtain ⟨lead, tail, isHead, ofMajor⟩ := @exists_lead_of_head major argument majorLt
  simp [isHead, atTag, ofMajor, notTag]

theorem Oversized.fails_readTagged {nesting : ℕ} {item : Item} (oversized : Oversized nesting item)
    (fails : Fails (readUntagged nesting) item.write) :
    Fails (readTagged nesting fun left _ => readUntagged left) item.write := by
  intro rest
  have untagged : atTag (item.write ++ rest) = false := by
    cases oversized <;>
      rw [write, List.append_assoc] <;> exact atTag_head (by decide) (by decide) _
  rw [readTagged_of_atTag untagged, fails rest]

theorem fails_readMembers {read : Reading Value} {head : Head} {bytes : Text}
    (closed : head.width < 28)
    (fails : head.argument ≤ sizeLimit → Fails (readCount read head.argument) bytes) :
    Fails (readMembers read head) bytes := by
  unfold readMembers
  rw [isOpen_eq_false closed]
  simp only [Bool.false_eq_true, if_false]
  split
  · case isTrue few => exact fails few
  · exact fun rest => rfl

/-- Reading `Fails` on an item that is `Oversized`. -/
theorem Oversized.fails_readUntagged {nesting : ℕ} {item : Item}
    (oversized : Oversized nesting item) : Fails (readUntagged nesting) item.write := by
  induction oversized with
  | sequence fits many =>
    obtain ⟨width, closed, takes⟩ := exists_takes_readHead (show 4 < 8 by decide) fits
    rw [write, readUntagged]
    refine takes.bind_fails (Fails.map ?_ Item.sequence)
    exact fails_readMembers closed fun few => absurd few (Nat.not_le.mpr many)
  | member few plain oversized inductionHypothesis =>
    obtain ⟨width, closed, takes⟩ :=
      exists_takes_readHead (show 4 < 8 by decide) (few.trans_lt (by decide))
    rw [write, writeItems_eq_flatMap, readUntagged]
    refine takes.bind_fails (Fails.map ?_ Item.sequence)
    refine fails_readMembers closed fun _ => fails_readCount (fun other member => ?_)
      (oversized.fails_readTagged inductionHypothesis) _
    exact (plain other member).takes_readTagged (plain other member).takes_readUntagged
  | entry few plain plainKey oversized inductionHypothesis =>
    obtain ⟨width, closed, takes⟩ :=
      exists_takes_readHead (show 5 < 8 by decide) (few.trans_lt (by decide))
    rw [write, writeEntries_eq_flatMap, readUntagged]
    refine takes.bind_fails (Fails.map ?_ Item.map)
    refine fails_readMembers closed fun _ => fails_readCount (fun other member => ?_) ?_ _
    · obtain ⟨key, value⟩ := plain other member
      exact (key.takes_readTagged key.takes_readUntagged).bind
        ((value.takes_readTagged value.takes_readUntagged).map (Prod.mk other.1))
    · refine (plainKey.takes_readTagged plainKey.takes_readUntagged).bind_fails ?_
      exact (oversized.fails_readTagged inductionHypothesis).map _

theorem Oversized.read?_write {item : Item} (oversized : Oversized nestingLimit item) :
    read? item.write = none := by
  have fails := oversized.fails_readTagged oversized.fails_readUntagged []
  rw [List.append_nil] at fails
  unfold read? readItem
  rw [fails]

theorem oversized_ofFields {nesting field : ℕ} {before after : List (ℕ × Option Item)}
    {item : Item} (few : (before ++ (field, some item) :: after).length ≤ sizeLimit)
    (small : field < 2 ^ 64) (smaller : ∀ number ∈ before.map Prod.fst, number < 2 ^ 64)
    (plain : ∀ entry ∈ before, ∀ other ∈ entry.2, Plain nesting other)
    (oversized : Oversized nesting item) :
    Oversized (nesting + 1) (ofFields (before ++ (field, some item) :: after)) := by
  let pair : ℕ × Option Item → Option (Item × Item) :=
    fun entry => entry.2.map fun other => (.unsigned entry.1, other)
  have split : (before ++ (field, some item) :: after).filterMap pair =
      before.filterMap pair ++ (.unsigned field, item) :: after.filterMap pair :=
    List.filterMap_append
  have short := List.length_filterMap_le pair (before ++ (field, some item) :: after)
  rw [split] at short
  show Oversized (nesting + 1) (.map ((before ++ (field, some item) :: after).filterMap pair))
  rw [split]
  refine .entry (short.trans few) ?_ (.unsigned small) oversized
  intro entry member
  obtain ⟨⟨number, other?⟩, among, written⟩ := List.mem_filterMap.mp member
  obtain ⟨other, rfl, rfl⟩ := Option.map_eq_some_iff.mp written
  exact ⟨.unsigned (smaller number (List.mem_map_of_mem among)), plain _ among other rfl⟩

end Item

namespace Image.Cbor

open Item (Oversized Plain)

variable {nesting : ℕ} {image : Image} {declaration : Declaration}

/-! ### Images with too many members -/

/-- The item of a function with too many parameters is `Oversized`. -/
theorem oversized_ofDeclaration (sized : declaration.Sized)
    (many : Item.sizeLimit < declaration.params.length) :
    Oversized (nesting + 2) (ofDeclaration declaration) := by
  have some : declaration.params ≠ [] := List.ne_nil_of_length_pos (Nat.zero_lt_of_lt many)
  have given : ofDeclaration declaration = Item.ofFields
      ([(1, .some (Item.ofText declaration.name))] ++
      (2, .some (.sequence (declaration.params.map Item.ofText))) ::
      [(3, .some (ofInt64 declaration.entry)),
        (4, Item.omitting 0 declaration.constructs.code ofByte)]) := by
    unfold ofDeclaration
    rw [Item.omitting, if_neg some]
    rfl
  have fits : declaration.params.length < 2 ^ 64 := sized.few.trans (by decide)
  rw [given]
  refine Item.oversized_ofFields (show 4 ≤ Item.sizeLimit by decide) (by decide) (by simp) ?_
    (.sequence (by simpa using fits) (by simpa using many))
  simpa using plain_ofText sized.name

/-- The fields of an image in front of its instructions. -/
def boundFields (image : Image) : List (ℕ × Option Item) :=
  [(1, ofInt64 image.version), (2, ofInt64 image.start), (3, ofInt64 image.stop)]

theorem plain_boundFields (image : Image) :
    ∀ entry ∈ boundFields image, ∀ item ∈ entry.2, Plain nesting item := by
  simp [boundFields, plain_ofInt64]

/-- The item of an image with too many instructions is `Oversized`. -/
theorem oversized_of_code (sized : image.Sized) (many : Item.sizeLimit < image.code.length) :
    Oversized (nesting + 2) (ofImage image) := by
  have fits : image.code.length < 2 ^ 64 := sized.code.trans (by decide)
  exact @Item.oversized_ofFields (nesting + 1) 4 (boundFields image) _ _
    (show 5 ≤ Item.sizeLimit by decide) (by decide)
    (show ∀ number ∈ [1, 2, 3], number < 2 ^ 64 by decide) (plain_boundFields image)
    (.sequence (by simpa using fits) (by simpa using many))

/-- The item of an image with functions whose item is `Oversized` is so, too. -/
theorem oversized_of_functions (sized : image.Sized) (few : image.code.length ≤ Item.sizeLimit)
    (some : image.functions ≠ [])
    (oversized : Oversized (nesting + 3) (.sequence (image.functions.map ofDeclaration))) :
    Oversized (nesting + 4) (ofImage image) := by
  have given : ofImage image = Item.ofFields
      ((boundFields image ++ [(4, .some (.sequence (image.code.map ofWritten)))]) ++
        (5, .some (.sequence (image.functions.map ofDeclaration))) :: []) := by
    unfold ofImage
    rw [Item.omitting, if_neg some]
    rfl
  have code : Plain (nesting + 1 + 2) (.sequence (image.code.map ofWritten)) :=
    plain_code few sized
  rw [given]
  refine Item.oversized_ofFields (show 5 ≤ Item.sizeLimit by decide) (by decide)
    (show ∀ number ∈ [1, 2, 3, 4], number < 2 ^ 64 by decide) ?_ oversized
  exact List.forall_mem_append.mpr ⟨plain_boundFields image, by simpa using code⟩

/-- The item of functions one of which has too many parameters is `Oversized`. -/
theorem oversized_of_params {functions : List Declaration}
    (sized : ∀ declaration ∈ functions, declaration.Sized)
    (few : functions.length ≤ Item.sizeLimit)
    (many : ∃ declaration ∈ functions, Item.sizeLimit < declaration.params.length) :
    Oversized (nesting + 3) (.sequence (functions.map ofDeclaration)) := by
  obtain ⟨long, member, tooLong⟩ := many
  have exists_long : (functions.find? fun declaration =>
      Item.sizeLimit < declaration.params.length).isSome :=
    List.find?_isSome.mpr ⟨long, member, decide_eq_true tooLong⟩
  obtain ⟨declaration, found⟩ := Option.isSome_iff_exists.mp exists_long
  -- the first function that is too long, with shorter ones in front
  obtain ⟨isLong, before, after, rfl, shorter⟩ := List.find?_eq_some_iff_append.mp found
  rw [List.map_append, List.map_cons]
  refine .member (by simpa using few) (fun item there => ?_)
    (oversized_ofDeclaration (sized declaration (by simp)) (of_decide_eq_true isLong))
  obtain ⟨other, earlier, rfl⟩ := List.mem_map.mp there
  have short : other.params.length ≤ Item.sizeLimit := by simpa using shorter other earlier
  exact plain_ofDeclaration (sized other (by simp [earlier])) short

/-! ### What can be read is well-formed -/

theorem utf8_of_ofText {zero text found : Text}
    (read : Item.orZero zero Item.text? (Item.ofText text) = some found) : text.isUtf8 := by
  have isText : (if [text].all Text.isUtf8 then some [text].flatten else none) = some found := read
  by_contra malformed
  rw [if_neg (by simpa using malformed)] at isText
  cases isText

theorem utf8_of_omitting {text found : Text}
    (read : (Item.omitting [] text Item.ofText).elim (some []) (Item.orZero [] Item.text?) =
      some found) : text.isUtf8 := by
  by_cases empty : text = []
  · rw [empty]
    rfl
  · rw [Item.omitting, if_neg empty] at read
    exact utf8_of_ofText read

/-- If a list is read, each of its members is. -/
theorem exists_of_list? {Value Result : Type} {zero : Result} {read : Item → Option Result}
    {write : Value → Item} {values : List Value} {found : List Result}
    (isList : Item.list? zero read (.sequence (values.map write)) = some found) :
    ∀ value ∈ values, ∃ result, Item.orZero zero read (write value) = some result := by
  induction values generalizing found with
  | nil => exact List.forall_mem_nil _
  | cons value others inductionHypothesis =>
    rw [Item.list?, List.map_cons, List.mapM_cons] at isList
    obtain ⟨result, first, isList⟩ := Option.bind_eq_some_iff.mp isList
    obtain ⟨results, later, -⟩ := Option.bind_eq_some_iff.mp isList
    exact List.forall_mem_cons.mpr ⟨⟨result, first⟩, inductionHypothesis later⟩

theorem utf8_of_ofWritten {zero found written : Written}
    (read : Item.orZero zero written? (ofWritten written) = some found) :
    written.text.isUtf8 := by
  have isRecord : written? (ofWritten written) = some found := read
  unfold written? ofWritten at isRecord
  rw [Item.record?_ofFields] at isRecord
  simp only [Option.bind_eq_bind, Option.bind_some, Option.bind_eq_some_iff] at isRecord
  obtain ⟨_, -, _, -, _, -, _, -, text, isText, -⟩ := isRecord
  rw [Item.field_entriesOf_eq _ _ (Item.numbered_of_consecutive rfl (by simp))
    (show (5, Item.omitting [] written.text Item.ofText) ∈ _ by simp)] at isText
  exact utf8_of_omitting isText

theorem utf8_of_ofDeclaration {zero found : Declaration}
    (read : Item.orZero zero declaration? (ofDeclaration declaration) = some found) :
    declaration.name.isUtf8 ∧ ∀ param ∈ declaration.params, Text.isUtf8 param := by
  have isRecord : declaration? (ofDeclaration declaration) = some found := read
  unfold declaration? ofDeclaration at isRecord
  rw [Item.record?_ofFields] at isRecord
  simp only [Option.bind_eq_bind, Option.bind_some, Option.bind_eq_some_iff] at isRecord
  obtain ⟨name, isName, params, isParams, -⟩ := isRecord
  rw [Item.field_entriesOf_eq _ _ (Item.numbered_of_consecutive rfl (by simp))
    (show (1, some (Item.ofText declaration.name)) ∈ _ by simp)] at isName
  refine ⟨utf8_of_ofText isName, fun param member => ?_⟩
  rw [Item.omitting, if_neg (List.ne_nil_of_mem member), Item.field_entriesOf_eq _ _
    (Item.numbered_of_consecutive rfl (by simp))
    (show (2, some (.sequence (declaration.params.map Item.ofText))) ∈ _ by simp)] at isParams
  obtain ⟨text, isText⟩ := exists_of_list? isParams param member
  exact utf8_of_ofText isText

theorem utf8_of_ofImage {zero found : Image}
    (read : Item.orZero zero image? (ofImage image) = some found) :
    (∀ written ∈ image.code, written.text.isUtf8) ∧
      ∀ declaration ∈ image.functions,
        declaration.name.isUtf8 ∧ ∀ param ∈ declaration.params, Text.isUtf8 param := by
  have isRecord : image? (ofImage image) = some found := read
  unfold image? ofImage at isRecord
  rw [Item.record?_ofFields] at isRecord
  simp only [Option.bind_eq_bind, Option.bind_some, Option.bind_eq_some_iff] at isRecord
  obtain ⟨_, -, _, -, _, -, code, isCode, functions, areFunctions, -⟩ := isRecord
  rw [Item.field_entriesOf_eq _ _ (Item.numbered_of_consecutive rfl (by simp))
    (show (4, some (.sequence (image.code.map ofWritten))) ∈ _ by simp)] at isCode
  refine ⟨fun written member => ?_, fun declaration member => ?_⟩
  · obtain ⟨other, isOther⟩ := exists_of_list? isCode written member
    exact utf8_of_ofWritten isOther
  · rw [Item.omitting, if_neg (List.ne_nil_of_mem member), Item.field_entriesOf_eq _ _
      (Item.numbered_of_consecutive rfl (by simp))
      (show (5, some (.sequence (image.functions.map ofDeclaration))) ∈ _ by simp)]
      at areFunctions
    obtain ⟨other, isOther⟩ := exists_of_list? areFunctions declaration member
    exact utf8_of_ofDeclaration isOther

/-! ### What can be read is legible -/

theorem not_oversized_of_unmarshal {other : Image}
    (read : codec.unmarshal (ofImage image).write = some other) :
    ¬ Oversized Item.nestingLimit (ofImage image) := by
  intro oversized
  obtain ⟨item, isItem, -⟩ := Option.bind_eq_some_iff.mp read
  rw [oversized.read?_write] at isItem
  cases isItem

/-- An image is `Legible` if what was written from it is read. -/
theorem legible_of_unmarshal {other : Image} (sized : image.Sized)
    (read : codec.unmarshal (ofImage image).write = some other) :
    image.Legible Item.sizeLimit := by
  have sound := not_oversized_of_unmarshal read
  have few : image.code.length ≤ Item.sizeLimit := by
    by_contra many
    exact sound (oversized_of_code sized (Nat.lt_of_not_le many))
  have fewFunctions : image.functions.length ≤ Item.sizeLimit := by
    by_contra many
    have many := Nat.lt_of_not_le many
    have fits : image.functions.length < 2 ^ 64 := sized.functions.trans (by decide)
    exact sound (oversized_of_functions sized few
      (List.ne_nil_of_length_pos (Nat.zero_lt_of_lt many))
      (.sequence (by simpa using fits) (by simpa using many)))
  have fewParams : ∀ declaration ∈ image.functions,
      declaration.params.length ≤ Item.sizeLimit := by
    by_contra many
    push Not at many
    obtain ⟨declaration, member, -⟩ := id many
    exact sound (oversized_of_functions sized few (List.ne_nil_of_mem member)
      (oversized_of_params sized.declarations fewFunctions many))
  have plain : Plain Item.nestingLimit (ofImage image) :=
    plain_ofImage sized few fewFunctions fewParams
  obtain ⟨item, isItem, isImage⟩ := Option.bind_eq_some_iff.mp read
  rw [plain.read?_write] at isItem
  cases isItem
  obtain ⟨texts, functions⟩ := utf8_of_ofImage isImage
  exact ⟨few, texts, fewFunctions, fun declaration member =>
    ⟨(functions declaration member).1, (functions declaration member).2,
      fewParams declaration member⟩⟩

end Image.Cbor

end ScriptEngine
