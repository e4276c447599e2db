/-
This file measures what readers make of bytes. A reader that succeeds has taken so many bytes, and
what it gives is no larger than that: a text is no longer than the bytes it was read from, however
many pieces it came in, and no sequence has more members than are admitted. As the readers of the
parts of an item take bytes one after another, their measures add up along the reader.
-/

import Mathlib
import ScriptEngine.Image.Record
import ScriptEngine.Proofs.Text.Characters

namespace ScriptEngine.Item

variable {Value Result : Type}

/-! ### Readers and what they take -/

/-- Whenever a reader succeeds, its value suits the number of bytes that it has taken. -/
def Yields (read : Reading Value) (Suits : ℕ → Value → Prop) : Prop :=
  ∀ bytes value rest, read bytes = some (value, rest) →
    ∃ taken, taken + rest.length = bytes.length ∧ Suits taken value

section Readers

variable {Suits : ℕ → Value → Prop} {Ends : ℕ → Result → Prop}

namespace Yields

theorem pure {value : Value} (suits : Suits 0 value) : Yields (Pure.pure value) Suits := by
  rintro bytes _ _ ⟨⟩
  exact ⟨0, Nat.zero_add _, suits⟩

theorem fail : Yields (failure : Reading Value) Suits := by
  rintro _ _ _ ⟨⟩

/-- A reader that takes nothing `Yields` what suits no bytes. -/
theorem lift {found : Option Value} (suits : ∀ value, found = some value → Suits 0 value) :
    Yields (liftM found) Suits := by
  intro bytes value rest read
  obtain ⟨_, isFound, ⟨⟩⟩ := Option.bind_eq_some_iff.mp read
  exact ⟨0, Nat.zero_add _, suits value isFound⟩

/-- What the first of two readers and then the second `Yields` adds up. -/
theorem bind {read : Reading Value} {next : Value → Reading Result} (first : Yields read Suits)
    (second : ∀ value taken, Suits taken value →
      Yields (next value) fun later => Ends (taken + later)) : Yields (read >>= next) Ends := by
  intro bytes result rest found
  obtain ⟨⟨value, behind⟩, here, later⟩ := Option.bind_eq_some_iff.mp found
  obtain ⟨taken, whole, suits⟩ := first _ _ _ here
  obtain ⟨more, others, ends⟩ := second value taken suits _ _ _ later
  exact ⟨taken + more, by omega, ends⟩

theorem get {next : Text → Reading Result} (yields : ∀ bytes, Yields (next bytes) Ends) :
    Yields (MonadState.get >>= next) Ends :=
  fun bytes => yields bytes bytes

theorem imp {Others : ℕ → Value → Prop} {read : Reading Value} (yields : Yields read Suits)
    (implies : ∀ taken value, Suits taken value → Others taken value) : Yields read Others := by
  intro bytes value rest found
  obtain ⟨taken, whole, suits⟩ := yields _ _ _ found
  exact ⟨taken, whole, implies taken value suits⟩

/-- A reader whose value is put into something else. -/
theorem map {read : Reading Value} (yields : Yields read Suits) (change : Value → Result)
    (ends : ∀ taken value, Suits taken value → Ends taken (change value)) :
    Yields (do return change (← read)) Ends :=
  yields.bind fun value taken suits => pure (ends taken value suits)

end Yields

/-! ### Heads and repetition -/

theorem yields_readByte : Yields readByte fun _ _ => True := by
  intro bytes byte rest found
  cases bytes with
  | nil => cases found
  | cons first others =>
    cases found
    exact ⟨1, Nat.add_comm _ _, trivial⟩

theorem yields_readBytes (count : ℕ) : Yields (readBytes count) fun taken text =>
    text.length ≤ taken := by
  intro bytes text rest found
  unfold readBytes at found
  split at found
  · cases found
    exact ⟨count, by rw [List.length_drop]; omega, List.length_take_le _ _⟩
  · cases found

theorem yields_readHead : Yields readHead fun _ _ => True := by
  refine yields_readByte.bind fun first taken _ => ?_
  dsimp only
  split
  · exact .pure trivial
  · split
    · exact (yields_readBytes _).bind fun _ _ _ => .pure trivial
    · exact .fail

/-- A measure for lists that adds up along their members. -/
structure Additive (Suits : ℕ → Value → Prop) (All : ℕ → List Value → Prop) : Prop where
  nil : ∀ taken, All taken []
  cons : ∀ {taken more value others}, Suits taken value → All more others →
    All (taken + more) (value :: others)

variable {All : ℕ → List Value → Prop}

theorem yields_readCount (additive : Additive Suits All) {read : Reading Value}
    (yields : Yields read Suits) (count : ℕ) :
    Yields (readCount read count) fun taken values => values.length = count ∧ All taken values := by
  induction count with
  | zero => exact .pure ⟨rfl, additive.nil 0⟩
  | succ count inductionHypothesis =>
    refine yields.bind fun value taken suits => inductionHypothesis.map (value :: ·) ?_
    rintro more others ⟨length, all⟩
    exact ⟨congrArg Nat.succ length, additive.cons suits all⟩

theorem yields_readRounds (additive : Additive Suits All) {read : Reading Value}
    (yields : Yields read Suits) (rounds : ℕ) : Yields (readRounds read rounds) All := by
  induction rounds with
  | zero => exact .fail
  | succ rounds inductionHypothesis =>
    refine .get fun bytes => ?_
    split
    · exact yields_readByte.bind fun _ _ _ => .pure (additive.nil _)
    · exact yields.bind fun value taken suits => inductionHypothesis.map (value :: ·)
        fun _ _ all => additive.cons suits all

theorem yields_readOpen (additive : Additive Suits All) {read : Reading Value}
    (yields : Yields read Suits) : Yields (readOpen read) All :=
  .get fun _ => yields_readRounds additive yields _

theorem yields_readMembers (additive : Additive Suits All) {read : Reading Value}
    (yields : Yields read Suits) (head : Head) :
    Yields (readMembers read head) fun taken values =>
      values.length ≤ sizeLimit ∧ All taken values := by
  unfold readMembers
  split
  · refine (yields_readOpen additive yields).bind fun values taken all => ?_
    split
    · case isTrue few => exact .pure ⟨few, all⟩
    · exact .fail
  · split
    · case isFalse.isTrue few =>
      exact (yields_readCount additive yields _).imp fun _ _ suits => ⟨suits.1 ▸ few, suits.2⟩
    · exact .fail

end Readers

/-! ### Strings -/

/-- The pieces of a text have so many bytes at most. -/
def ShortPieces (taken : ℕ) (pieces : List Text) : Prop :=
  pieces.flatten.length ≤ taken

theorem additive_shortPieces :
    Additive (fun taken (piece : Text) => piece.length ≤ taken) ShortPieces where
  nil _ := Nat.zero_le _
  cons short all := by
    unfold ShortPieces at all ⊢
    rw [List.flatten_cons, List.length_append]
    exact Nat.add_le_add short all

theorem yields_readPieces (head : Head) : Yields (readPieces head) ShortPieces := by
  unfold readPieces
  split
  · refine yields_readOpen additive_shortPieces ?_
    refine yields_readHead.bind fun piece taken _ => ?_
    split
    · exact (yields_readBytes _).imp fun later _ short => short.trans (Nat.le_add_left _ _)
    · exact .fail
  · refine (yields_readBytes _).map (fun text => [text]) fun taken text short => ?_
    unfold ShortPieces
    rwa [List.flatten_singleton]

/-! ### Items -/

/-- What can have been read from so many bytes: the texts are no longer than that, and the sequences
have no more members than `sizeLimit` admits. -/
inductive Within : (size : ℕ) → Item → Prop where
  | unsigned {size : ℕ} (value : ℕ) : Within size (.unsigned value)
  | negative {size : ℕ} (below : ℕ) : Within size (.negative below)
  | bytes {size : ℕ} (pieces : List Text) : Within size (.bytes pieces)
  | text {size : ℕ} {pieces : List Text} (short : ShortPieces size pieces) :
    Within size (.text pieces)
  | sequence {size : ℕ} {items : List Item} (few : items.length ≤ sizeLimit)
    (members : ∀ item ∈ items, Within size item) : Within size (.sequence items)
  | map {size : ℕ} {entries : List (Item × Item)}
    (values : ∀ entry ∈ entries, Within size entry.2) : Within size (.map entries)
  | tagged {size : ℕ} (tag : ℕ) {content : Item} (within : Within size content) :
    Within size (.tagged tag content)
  | simple {size : ℕ} (code : ℕ) : Within size (.simple code)
  | float {size : ℕ} (value : Float) : Within size (.float value)

theorem Within.mono {size more : ℕ} {item : Item} (within : Within size item)
    (le : size ≤ more) : Within more item := by
  induction within with
  | unsigned value => exact .unsigned value
  | negative below => exact .negative below
  | bytes pieces => exact .bytes pieces
  | text short => exact .text (short.trans le)
  | sequence few _ inductionHypothesis => exact .sequence few inductionHypothesis
  | map _ inductionHypothesis => exact .map inductionHypothesis
  | tagged tag _ inductionHypothesis => exact .tagged tag inductionHypothesis
  | simple code => exact .simple code
  | float value => exact .float value

/-- All of some items are within a size. -/
def AllWithin (size : ℕ) (items : List Item) : Prop :=
  ∀ item ∈ items, Within size item

theorem additive_allWithin : Additive Within AllWithin where
  nil _ := List.forall_mem_nil _
  cons within all := List.forall_mem_cons.mpr ⟨within.mono (Nat.le_add_right _ _),
    fun item member => (all item member).mono (Nat.le_add_left _ _)⟩

/-- The values of some entries are within a size. -/
def ValuesWithin (size : ℕ) (entries : List (Item × Item)) : Prop :=
  ∀ entry ∈ entries, Within size entry.2

theorem additive_valuesWithin : Additive (fun size entry => Within size entry.2) ValuesWithin where
  nil _ := List.forall_mem_nil _
  cons within all := List.forall_mem_cons.mpr ⟨within.mono (Nat.le_add_right _ _),
    fun entry member => (all entry member).mono (Nat.le_add_left _ _)⟩

theorem yields_readTagRounds (rounds : ℕ) : Yields (readTagRounds rounds) fun _ _ => True := by
  induction rounds with
  | zero => exact .pure trivial
  | succ rounds inductionHypothesis =>
    refine .get fun bytes => ?_
    split
    · refine yields_readHead.bind fun head taken _ => ?_
      split
      · exact .fail
      · exact inductionHypothesis.map _ fun _ _ _ => trivial
    · exact .pure trivial

theorem within_foldr_tagged {size : ℕ} {content : Item} (within : Within size content)
    (tags : List ℕ) : Within size (tags.foldr .tagged content) := by
  induction tags with
  | nil => exact within
  | cons tag tags inductionHypothesis => exact .tagged tag inductionHypothesis

theorem yields_readTagged {nesting : ℕ} {read : (left : ℕ) → left ≤ nesting → Reading Item}
    (yields : ∀ left le, Yields (read left le) Within) :
    Yields (readTagged nesting read) Within := by
  refine .get fun bytes => (yields_readTagRounds _).bind fun tags taken _ => ?_
  dsimp only
  split
  · exact .fail
  · refine (yields _ _).map _ fun later content within => within_foldr_tagged ?_ tags
    exact within.mono (Nat.le_add_left _ _)

theorem yields_readEntry {read : Reading Item} (yields : Yields read Within) :
    Yields (readEntry read) fun size entry => Within size entry.2 :=
  yields.bind fun key _ _ => yields.map (Prod.mk key) fun _ _ within =>
    within.mono (Nat.le_add_left _ _)

theorem within_of_ofPrimitive? {size : ℕ} {head : Head} {item : Item}
    (found : ofPrimitive? head = some item) : Within size item := by
  unfold ofPrimitive? at found
  repeat' split at found
  all_goals cases found
  · exact .simple _
  · exact .simple _
  · exact .float _
  · exact .float _
  · exact .float _

theorem yields_readUntagged (nesting : ℕ) : Yields (readUntagged nesting) Within := by
  induction nesting using Nat.strong_induction_on with
  | h nesting inductionHypothesis =>
    have members {inner : ℕ} (below : inner < nesting) :
        Yields (readTagged inner fun left _ => readUntagged left) Within :=
      yields_readTagged fun left le => inductionHypothesis left (le.trans_lt below)
    rw [readUntagged]
    refine yields_readHead.bind fun head taken _ => ?_
    split
    · split
      · exact .fail
      · exact .pure (.unsigned _)
    · split
      · exact .fail
      · exact .pure (.negative _)
    · exact (yields_readPieces head).map Item.bytes fun _ _ _ => .bytes _
    · exact (yields_readPieces head).map Item.text fun later pieces short =>
        .text (short.trans (Nat.le_add_left _ _))
    · refine (yields_readMembers additive_allWithin (members ?_) head).map Item.sequence ?_
      · exact Nat.lt_succ_self _
      · rintro later items ⟨few, all⟩
        exact .sequence few fun item member => (all item member).mono (Nat.le_add_left _ _)
    · refine (yields_readMembers additive_valuesWithin (yields_readEntry (members ?_)) head).map
        Item.map ?_
      · exact Nat.lt_succ_self _
      · rintro later entries ⟨-, all⟩
        exact .map fun entry member => (all entry member).mono (Nat.le_add_left _ _)
    · exact .lift fun item found => within_of_ofPrimitive? found
    · exact .fail

/-- The item that bytes are is `Within` their number. -/
theorem within_of_read? {bytes : Text} {item : Item} (found : read? bytes = some item) :
    Within bytes.length item := by
  unfold read? at found
  split at found
  · case h_1 read =>
    cases found
    obtain ⟨taken, whole, within⟩ :=
      yields_readTagged (fun left _ => yields_readUntagged left) _ _ _ read
    rwa [← whole, List.length_nil]
  · cases found

end ScriptEngine.Item
