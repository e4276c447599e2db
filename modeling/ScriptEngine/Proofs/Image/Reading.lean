/-
This file is about reading data items that were written. Readers take bytes off the front, so what
is said of each is that it takes exactly the bytes of a value and leaves whatever follows; in this
form the statements about the parts of an item put themselves together along the reader. The main
statement is that reading gives back every plain item, one without tags whose strings are in one
piece and whose members nest and number no more than a reader admits.
-/

import Mathlib
import ScriptEngine.Image.Reader
import ScriptEngine.Proofs.Number.Interchange

namespace ScriptEngine.Item

variable {Value Result : Type}

/-! ### Readers that take what was written -/

/-- A reader takes certain bytes off whatever they stand in front of, and gives a value. -/
def Takes (read : Reading Value) (bytes : Text) (value : Value) : Prop :=
  ∀ rest, read (bytes ++ rest) = some (value, rest)

namespace Takes

theorem pure (value : Value) : Takes (Pure.pure value) [] value := fun _ => rfl

theorem bind {first : Reading Value} {next : Value → Reading Result} {left right : Text}
    {value : Value} {result : Result} (takesFirst : Takes first left value)
    (takesNext : Takes (next value) right result) :
    Takes (first >>= next) (left ++ right) result := by
  intro rest
  show (first (left ++ right ++ rest)).bind (fun step => next step.1 step.2) = _
  rw [List.append_assoc, takesFirst]
  exact takesNext rest

theorem map {read : Reading Value} {bytes : Text} {value : Value} (takes : Takes read bytes value)
    (change : Value → Result) : Takes (do return change (← read)) bytes (change value) := by
  have whole : Takes (read >>= fun value => Pure.pure (change value)) (bytes ++ [])
      (change value) := takes.bind (pure (change value))
  rwa [List.append_nil] at whole

end Takes

theorem takes_readByte (byte : UInt8) : Takes readByte [byte] byte := fun _ => rfl

theorem takes_readBytes (bytes : Text) : Takes (readBytes bytes.length) bytes bytes := by
  intro rest
  simp [readBytes]

theorem takes_readCount {read : Reading Value} {write : Value → Text} {values : List Value}
    (takes : ∀ value ∈ values, Takes read (write value) value) :
    Takes (readCount read values.length) (values.flatMap write) values := by
  induction values with
  | nil => exact Takes.pure []
  | cons value others ih =>
    rw [List.flatMap_cons, List.length_cons]
    refine (takes value List.mem_cons_self).bind ?_
    exact (ih fun other member => takes other (List.mem_cons_of_mem _ member)).map _

/-! ### Heads -/

theorem length_bigEndian (count value : ℕ) : (bigEndian count value).length = count := by
  induction count generalizing value with
  | zero => rfl
  | succ count ih => simp [bigEndian, ih]

theorem bigEndianValue_bigEndian {count value : ℕ} (fits : value < 256 ^ count) :
    bigEndianValue (bigEndian count value) = value := by
  induction count generalizing value with
  | zero =>
    rw [pow_zero] at fits
    have zero : value = 0 := by omega
    rw [zero]
    rfl
  | succ count ih =>
    have higher : value / 256 < 256 ^ count := by
      rw [pow_succ] at fits
      exact Nat.div_lt_of_lt_mul (by rwa [Nat.mul_comm] at fits)
    have spelt : bigEndianValue (bigEndian (count + 1) value) =
        bigEndianValue (bigEndian count (value / 256)) * 256 + (value % 256).toUInt8.toNat := by
      simp [bigEndianValue, bigEndian, List.foldl_append]
    have low : (value % 256).toUInt8.toNat = value % 256 := by
      simp
    rw [spelt, ih higher, low]
    omega

theorem toNat_lead {major low : ℕ} (majorLt : major < 8) (lowLt : low < 32) :
    (major * 32 + low).toUInt8.toNat = major * 32 + low := by
  simp
  omega

/-- A head whose argument takes `2 ^ (width - 24)` bytes of its own. -/
theorem takes_readHead_wide {major width value : ℕ} (majorLt : major < 8) (wide : 24 ≤ width)
    (widthLt : width < 28) (fits : value < 256 ^ 2 ^ (width - 24)) :
    Takes readHead ((major * 32 + width).toUInt8 :: bigEndian (2 ^ (width - 24)) value)
      ⟨major, width, value⟩ := by
  have lead := toNat_lead majorLt (show width < 32 by omega)
  have ofMajor : (major * 32 + width) / 32 = major := by omega
  have ofWidth : (major * 32 + width) % 32 = width := by omega
  refine (takes_readByte _).bind ?_
  dsimp only
  rw [lead, ofMajor, ofWidth, if_neg (by omega), if_pos widthLt]
  have argument := takes_readBytes (bigEndian (2 ^ (width - 24)) value)
  rw [length_bigEndian] at argument
  have whole := argument.map fun bytes => Head.mk major width (bigEndianValue bytes)
  rwa [bigEndianValue_bigEndian fits] at whole

theorem takes_readHead_narrow {major value : ℕ} (majorLt : major < 8) (narrow : value < 24) :
    Takes readHead [(major * 32 + value).toUInt8] ⟨major, value, value⟩ := by
  have lead := toNat_lead majorLt (show value < 32 by omega)
  have ofMajor : (major * 32 + value) / 32 = major := by omega
  have ofValue : (major * 32 + value) % 32 = value := by omega
  rw [← List.append_nil [_]]
  refine (takes_readByte _).bind ?_
  dsimp only
  rw [lead, ofMajor, ofValue, if_pos (.inl narrow)]
  exact Takes.pure _

/-- `readHead` reads a head with its major type and its argument, and never as one without a length.
-/
theorem exists_takes_readHead {major argument : ℕ} (majorLt : major < 8)
    (fits : argument < 2 ^ 64) :
    ∃ width, width < 28 ∧ Takes readHead (head major argument) ⟨major, width, argument⟩ := by
  unfold head
  split
  · case isTrue narrow => exact ⟨argument, by omega, takes_readHead_narrow majorLt narrow⟩
  split
  · case isTrue one =>
    exact ⟨24, by decide, takes_readHead_wide majorLt (by decide) (by decide) one⟩
  split
  · case isTrue two =>
    exact ⟨25, by decide, takes_readHead_wide majorLt (by decide) (by decide) two⟩
  split
  · case isTrue four =>
    exact ⟨26, by decide, takes_readHead_wide majorLt (by decide) (by decide) four⟩
  · exact ⟨27, by decide, takes_readHead_wide majorLt (by decide) (by decide) fits⟩

theorem isOpen_eq_false {head : Head} (closed : head.width < 28) : head.isOpen = false := by
  unfold Head.isOpen
  exact beq_false_of_ne (by omega)

/-- The first byte of a head has its major type. -/
theorem exists_lead_of_head {major argument : ℕ} (majorLt : major < 8) :
    ∃ lead tail, head major argument = lead :: tail ∧ lead.toNat / 32 = major := by
  have ofLow : ∀ low, low < 32 → (major * 32 + low).toUInt8.toNat / 32 = major := by
    intro low lowLt
    rw [toNat_lead majorLt lowLt]
    omega
  unfold head
  split
  · case isTrue narrow => exact ⟨_, _, rfl, ofLow argument (by omega)⟩
  split
  · exact ⟨_, _, rfl, ofLow 24 (by decide)⟩
  split
  · exact ⟨_, _, rfl, ofLow 25 (by decide)⟩
  split
  · exact ⟨_, _, rfl, ofLow 26 (by decide)⟩
  · exact ⟨_, _, rfl, ofLow 27 (by decide)⟩

/-! ### Plain items -/

/-- An item that reading gives back as it was written, when as many sequences and maps may still
nest. -/
inductive Plain : (nesting : ℕ) → Item → Prop where
  | unsigned {nesting value : ℕ} (fits : value < 2 ^ 64) : Plain nesting (.unsigned value)
  | negative {nesting below : ℕ} (fits : below < 2 ^ 64) : Plain nesting (.negative below)
  | text {nesting : ℕ} {piece : Text} (fits : piece.length < 2 ^ 64) : Plain nesting (.text [piece])
  | simple {nesting code : ℕ} (short : code < 24) : Plain nesting (.simple code)
  | float {nesting : ℕ} {value : Float} : Plain nesting (.float value)
  | sequence {nesting : ℕ} {items : List Item} (few : items.length ≤ sizeLimit)
    (members : ∀ item ∈ items, Plain nesting item) : Plain (nesting + 1) (.sequence items)
  | map {nesting : ℕ} {entries : List (Item × Item)} (few : entries.length ≤ sizeLimit)
    (keys : ∀ entry ∈ entries, Plain nesting entry.1)
    (values : ∀ entry ∈ entries, Plain nesting entry.2) : Plain (nesting + 1) (.map entries)

theorem writeItems_eq_flatMap (items : List Item) : writeItems items = items.flatMap write := by
  induction items with
  | nil => rfl
  | cons item rest ih => rw [writeItems, ih, List.flatMap_cons]

theorem writeEntries_eq_flatMap (entries : List (Item × Item)) :
    writeEntries entries = entries.flatMap fun entry => write entry.1 ++ write entry.2 := by
  induction entries with
  | nil => rfl
  | cons entry rest ih => rw [writeEntries, ih, List.flatMap_cons]

/-- A floating-point number starts with the major type of primitives. -/
theorem exists_lead_of_floatBytes (value : Float) :
    ∃ lead tail, floatBytes value = lead :: tail ∧ lead.toNat / 32 = 7 := by
  unfold floatBytes
  split
  · exact ⟨_, _, rfl, by decide⟩
  · exact ⟨_, _, rfl, by decide⟩
  · exact ⟨_, _, rfl, by decide⟩

/-- An item that is `Plain` does not start with a tag. -/
theorem Plain.atTag_eq_false {nesting : ℕ} {item : Item} (plain : Plain nesting item)
    (rest : Text) : atTag (item.write ++ rest) = false := by
  have ofLead : ∀ {bytes : Text} {major : ℕ} (tail : Text), major ≠ 6 →
      (∃ lead tail, bytes = lead :: tail ∧ lead.toNat / 32 = major) →
      atTag (bytes ++ tail) = false := by
    rintro bytes major tail notTag ⟨lead, others, rfl, ofMajor⟩
    simp [atTag, ofMajor, notTag]
  cases plain with
  | unsigned => exact ofLead _ (by decide) (exists_lead_of_head (by decide))
  | negative => exact ofLead _ (by decide) (exists_lead_of_head (by decide))
  | text =>
    rw [write, stringBytes, List.append_assoc]
    exact ofLead _ (by decide) (exists_lead_of_head (by decide))
  | simple => exact ofLead _ (by decide) (exists_lead_of_head (by decide))
  | float => exact ofLead _ (by decide) (exists_lead_of_floatBytes _)
  | sequence =>
    rw [write, List.append_assoc]
    exact ofLead _ (by decide) (exists_lead_of_head (by decide))
  | map =>
    rw [write, List.append_assoc]
    exact ofLead _ (by decide) (exists_lead_of_head (by decide))

/-- Where no tag stands, an item with its tags is an untagged one. -/
theorem readTagged_of_atTag {nesting : ℕ} {bytes : Text} (untagged : atTag bytes = false) :
    readTagged nesting (fun left _ => readUntagged left) bytes = readUntagged nesting bytes := by
  have noTags : ∀ rounds, readTagRounds rounds bytes = some ([], bytes) := by
    intro rounds
    cases rounds with
    | zero => rfl
    | succ rounds =>
      show (if atTag bytes then _ else Pure.pure [] : Reading (List ℕ)) _ = _
      rw [untagged]
      rfl
  show ((readTagRounds bytes.length) bytes).bind _ = _
  rw [noTags]
  show (readUntagged nesting bytes).bind (fun read => some (read.1, read.2)) = _
  exact Option.bind_fun_some _

/-- What reads untagged items reads `Plain` ones also where tags may stand. -/
theorem Plain.takes_readTagged {nesting : ℕ} {item : Item} (plain : Plain nesting item)
    (takes : Takes (readUntagged nesting) item.write item) :
    Takes (readTagged nesting fun left _ => readUntagged left) item.write item := by
  intro rest
  rw [readTagged_of_atTag (plain.atTag_eq_false rest), takes rest]

/-! ### Reading plain items -/

theorem takes_readMembers {read : Reading Value} {write : Value → Text} {values : List Value}
    {head : Head} (closed : head.width < 28) (count : head.argument = values.length)
    (few : values.length ≤ sizeLimit) (takes : ∀ value ∈ values, Takes read (write value) value) :
    Takes (readMembers read head) (values.flatMap write) values := by
  unfold readMembers
  rw [isOpen_eq_false closed, count]
  simp only [Bool.false_eq_true, if_false, if_pos few]
  exact takes_readCount takes

/-- The argument of a floating-point number and the width it is read at. -/
theorem takes_readUntagged_float (nesting : ℕ) (value : Float) :
    Takes (readUntagged nesting) (floatBytes value) (.float value) := by
  have primitive : ∀ {head : Head} {bytes : Text}, head.major = 7 → Takes readHead bytes head →
      ofPrimitive? head = some (.float value) →
      Takes (readUntagged nesting) bytes (.float value) := by
    rintro ⟨major, width, argument⟩ bytes rfl takes primitive rest
    rw [readUntagged]
    show (readHead (bytes ++ rest)).bind _ = _
    rw [takes rest]
    show (ofPrimitive? ⟨7, width, argument⟩).bind _ = _
    rw [primitive]
    rfl
  unfold floatBytes
  split
  · case h_1 _ _ bits half =>
    obtain ⟨same, fits⟩ := Number.BinaryFormat.value_of_bits? Number.BinaryFormat.proper_half half
    refine primitive rfl (takes_readHead_wide (show 7 < 8 by decide) (show 24 ≤ 25 by decide)
      (by decide) fits) ?_
    show some (Item.float (Number.BinaryFormat.half.value bits)) = _
    rw [same]
  · case h_2 _ _ bits _ single =>
    obtain ⟨same, fits⟩ :=
      Number.BinaryFormat.value_of_bits? Number.BinaryFormat.proper_single single
    refine primitive rfl (takes_readHead_wide (show 7 < 8 by decide) (show 24 ≤ 26 by decide)
      (by decide) fits) ?_
    show some (Item.float (Number.BinaryFormat.single.value bits)) = _
    rw [same]
  · refine primitive rfl (takes_readHead_wide (show 7 < 8 by decide) (show 24 ≤ 27 by decide)
      (by decide) value.toBits.toNat_lt) ?_
    show some (Item.float (Float.ofBits value.toBits.toNat.toUInt64)) = _
    rw [Nat.toUInt64_eq, UInt64.ofNat_toNat, Float.ofBits_toBits]

/-- `readUntagged` gives a `Plain` item back. -/
theorem Plain.takes_readUntagged {nesting : ℕ} {item : Item} (plain : Plain nesting item) :
    Takes (readUntagged nesting) item.write item := by
  induction plain with
  | unsigned fits =>
    rename_i nesting value
    obtain ⟨width, closed, takes⟩ := exists_takes_readHead (show 0 < 8 by decide) fits
    rw [write, ← List.append_nil (head _ _), readUntagged]
    refine takes.bind ?_
    have notOpen : (Head.mk 0 width value).isOpen = false := isOpen_eq_false closed
    simp only [notOpen, Bool.false_eq_true, if_false]
    exact Takes.pure _
  | negative fits =>
    rename_i nesting below
    obtain ⟨width, closed, takes⟩ := exists_takes_readHead (show 1 < 8 by decide) fits
    rw [write, ← List.append_nil (head _ _), readUntagged]
    refine takes.bind ?_
    have notOpen : (Head.mk 1 width below).isOpen = false := isOpen_eq_false closed
    simp only [notOpen, Bool.false_eq_true, if_false]
    exact Takes.pure _
  | text fits =>
    rename_i nesting piece
    obtain ⟨width, closed, takes⟩ := exists_takes_readHead (show 3 < 8 by decide) fits
    rw [write, stringBytes, readUntagged]
    refine takes.bind (Takes.map ?_ Item.text)
    unfold readPieces
    have notOpen : (Head.mk 3 width piece.length).isOpen = false := isOpen_eq_false closed
    simp only [notOpen, Bool.false_eq_true, if_false]
    exact (takes_readBytes piece).map fun bytes => [bytes]
  | simple short =>
    rename_i nesting code
    intro rest
    rw [write, head, if_pos short, readUntagged]
    show (readHead _).bind _ = _
    rw [takes_readHead_narrow (by decide) short rest]
    show (ofPrimitive? ⟨7, code, code⟩).bind _ = _
    unfold ofPrimitive?
    rw [if_pos short]
    rfl
  | float => exact takes_readUntagged_float _ _
  | sequence few members ih =>
    rename_i nesting items
    obtain ⟨width, closed, takes⟩ :=
      exists_takes_readHead (show 4 < 8 by decide) (few.trans_lt (by decide))
    rw [write, writeItems_eq_flatMap, readUntagged]
    refine takes.bind (Takes.map ?_ Item.sequence)
    exact takes_readMembers closed rfl few fun item member =>
      (members item member).takes_readTagged (ih item member)
  | map few keys values ihKeys ihValues =>
    rename_i nesting entries
    obtain ⟨width, closed, takes⟩ :=
      exists_takes_readHead (show 5 < 8 by decide) (few.trans_lt (by decide))
    rw [write, writeEntries_eq_flatMap, readUntagged]
    refine takes.bind (Takes.map ?_ Item.map)
    refine takes_readMembers closed rfl few fun entry member => ?_
    refine ((keys entry member).takes_readTagged (ihKeys entry member)).bind ?_
    exact ((values entry member).takes_readTagged (ihValues entry member)).map (entry.1, ·)

/-- The bytes of a `Plain` item are that item. -/
theorem Plain.read?_write {item : Item} (plain : Plain nestingLimit item) :
    read? item.write = some item := by
  have taken := plain.takes_readTagged plain.takes_readUntagged []
  rw [List.append_nil] at taken
  unfold read? readItem
  rw [taken]

end ScriptEngine.Item
