/-
This file proves that the engine's own codec is lawful. It writes every image, and what it has
written from an image that is legible it reads as the image without the signs of its zeros, and
otherwise not at all. What it reads from any bytes is made of parts of one data item, so texts are
well-formed and no longer than the bytes, and no sequence has more members than a reader admits.
-/

import Mathlib
import ScriptEngine.Proofs.Image.Intake
import ScriptEngine.Proofs.Image.Legibility

namespace ScriptEngine

namespace Item

variable {Value : Type} {zero value : Value} {read : Item → Option Value}
  {Holds : Value → Prop} {size : ℕ} {item : Item}

/-! ### Parts of an item that was read -/

theorem Within.untagged {content : Item} (within : Within size item)
    (found : item.untagged? = some content) : Within size content := by
  induction within with
  | tagged tag within inductionHypothesis =>
    unfold untagged? at found
    split at found
    · split at found
      · cases found
        exact .unsigned _
      · cases found
        exact .negative _
      · exact inductionHypothesis found
    · cases found
  | unsigned value =>
    cases found
    exact .unsigned value
  | negative below =>
    cases found
    exact .negative below
  | bytes pieces =>
    cases found
    exact .bytes pieces
  | text short =>
    cases found
    exact .text short
  | sequence few members =>
    cases found
    exact .sequence few members
  | map values =>
    cases found
    exact .map values
  | simple code =>
    cases found
    exact .simple code
  | float value =>
    cases found
    exact .float value

/-- What holds of the zero of a type and of everything read from items `Within` a size holds of what
such an item stands for. -/
theorem Within.of_orZero (within : Within size item) (atZero : Holds zero)
    (ofRead : ∀ item value, Within size item → read item = some value → Holds value)
    (found : item.orZero zero read = some value) : Holds value := by
  obtain ⟨content, bare, found⟩ := Option.bind_eq_some_iff.mp found
  split at found
  · cases found
    exact atZero
  · exact ofRead content value (within.untagged bare) found

/-- Something is read from all of some items if it is read from each, in order. -/
theorem mapM_eq_some_iff {Source Target : Type} {change : Source → Option Target}
    {sources : List Source} {targets : List Target} : sources.mapM change = some targets ↔
      List.Forall₂ (fun source target => change source = some target) sources targets := by
  induction sources generalizing targets with
  | nil => simp [eq_comm]
  | cons source rest inductionHypothesis =>
    rw [List.mapM_cons, List.forall₂_cons_left_iff]
    simp only [Option.bind_eq_bind, Option.bind_eq_some_iff, inductionHypothesis]
    simp [pure, eq_comm]

theorem Within.of_list? {values : List Value} (within : Within size item) (atZero : Holds zero)
    (ofRead : ∀ item value, Within size item → read item = some value → Holds value)
    (found : item.list? zero read = some values) :
    values.length ≤ sizeLimit ∧ ∀ value ∈ values, Holds value := by
  cases within with
  | @sequence items few members =>
    have each := mapM_eq_some_iff.mp found
    refine ⟨each.length_eq ▸ few, fun value member => ?_⟩
    obtain ⟨item, among, here⟩ := Image.exists_source_of_mem each member
    exact (members item among).of_orZero atZero ofRead here
  | _ => cases found

/-- The items in the entries of a record are `Within` a size. -/
def Record.Within (size : ℕ) (record : Record) : Prop :=
  ∀ entry ∈ record, entry.2.Within size

theorem Within.record {record : Record} (within : Within size item)
    (found : item.record? = some record) : record.Within size := by
  cases within with
  | @map entries values =>
    have each := mapM_eq_some_iff.mp found
    intro entry member
    obtain ⟨⟨key, item⟩, among, here⟩ := Image.exists_source_of_mem each member
    obtain ⟨_, -, ⟨⟩⟩ := Option.bind_eq_some_iff.mp here
    exact values _ among
  | _ => cases found

theorem Record.Within.of_field {record : Record} {field : ℕ} (within : record.Within size)
    (atZero : Holds zero)
    (ofRead : ∀ item value, item.Within size → read item = some value → Holds value)
    (found : record.field field zero read = some value) : Holds value := by
  unfold Record.field at found
  split at found
  · case h_1 isEntry =>
    exact (within _ (List.mem_of_find?_eq_some isEntry)).of_orZero atZero ofRead found
  · cases found
    exact atZero

/-- A field that holds a list has no more members than are admitted. -/
theorem Record.Within.of_listField {record : Record} {field : ℕ} {values : List Value}
    (within : record.Within size) (atZero : Holds zero)
    (ofRead : ∀ item value, item.Within size → read item = some value → Holds value)
    (found : record.field field [] (list? zero read) = some values) :
    values.length ≤ sizeLimit ∧ ∀ value ∈ values, Holds value := by
  let Listed (values : List Value) : Prop :=
    values.length ≤ sizeLimit ∧ ∀ value ∈ values, Holds value
  have atNil : Listed [] := ⟨Nat.zero_le _, List.forall_mem_nil _⟩
  have listed : Listed values :=
    within.of_field atNil (fun _ _ within => within.of_list? atZero ofRead) found
  exact listed

end Item

/-! ### What is read from so many bytes -/

/-- A text that can have been read from so many bytes: it is well-formed and no longer than that. -/
structure Text.ReadFrom (size : ℕ) (text : Text) : Prop where
  utf8 : text.isUtf8
  short : text.length ≤ size

/-- A function that can have been read from so many bytes. -/
structure Declaration.ReadFrom (size : ℕ) (declaration : Declaration) : Prop where
  name : Text.ReadFrom size declaration.name
  params : ∀ param ∈ declaration.params, Text.ReadFrom size param
  few : declaration.params.length ≤ Item.sizeLimit

/-- An image that can have been read from so many bytes: its texts can, and no sequence in it is
longer than `Item.sizeLimit`. -/
structure Image.ReadFrom (size : ℕ) (image : Image) : Prop where
  code : image.code.length ≤ Item.sizeLimit
  texts : ∀ written ∈ image.code, Text.ReadFrom size written.text
  functions : image.functions.length ≤ Item.sizeLimit
  declarations : ∀ declaration ∈ image.functions, declaration.ReadFrom size

section

variable {size : ℕ} {image : Image}

theorem Image.ReadFrom.legible (readFrom : image.ReadFrom size) :
    image.Legible Item.sizeLimit where
  code := readFrom.code
  texts written member := (readFrom.texts written member).utf8
  functions := readFrom.functions
  declarations declaration member :=
    have inner := readFrom.declarations declaration member
    ⟨inner.name.utf8, fun param among => (inner.params param among).utf8, inner.few⟩

theorem Image.ReadFrom.sized (readFrom : image.ReadFrom size) (small : size < 2 ^ 63) :
    image.Sized where
  code := readFrom.code.trans_lt (by decide)
  texts written member := (readFrom.texts written member).short.trans_lt small
  functions := readFrom.functions.trans_lt (by decide)
  declarations declaration member :=
    have inner := readFrom.declarations declaration member
    ⟨inner.name.short.trans_lt small,
      fun param among => (inner.params param among).short.trans_lt small,
      inner.few.trans_lt (by decide)⟩

end

namespace Image.Cbor

variable {size : ℕ} {item : Item}

theorem readFrom_nil : Text.ReadFrom size [] := ⟨rfl, Nat.zero_le _⟩

theorem readFrom_of_text? {text : Text} (within : item.Within size)
    (found : item.text? = some text) : Text.ReadFrom size text := by
  cases within with
  | @text pieces short =>
    change (if pieces.all Text.isUtf8 then some pieces.flatten else none) = some text at found
    split at found
    · case isTrue utf8 =>
      cases found
      exact ⟨Text.isUtf8_flatten utf8, short⟩
    · cases found
  | _ => cases found

theorem readFrom_of_declaration? {declaration : Declaration} (within : item.Within size)
    (found : declaration? item = some declaration) : declaration.ReadFrom size := by
  have text : ∀ (item : Item) (text : Text), item.Within size → item.text? = some text →
      Text.ReadFrom size text := fun _ _ => readFrom_of_text?
  simp only [declaration?, Option.bind_eq_bind, Option.bind_eq_some_iff] at found
  obtain ⟨record, isRecord, name, isName, params, areParams, _, _, _, _, made⟩ := found
  cases made
  have entries := within.record isRecord
  obtain ⟨few, each⟩ := entries.of_listField readFrom_nil text areParams
  exact ⟨entries.of_field readFrom_nil text isName, each, few⟩

theorem readFrom_of_written? {written : Written} (within : item.Within size)
    (found : written? item = some written) : Text.ReadFrom size written.text := by
  simp only [written?, Option.bind_eq_bind, Option.bind_eq_some_iff] at found
  obtain ⟨record, isRecord, _, _, _, _, _, _, _, _, text, isText, _, _, _, _, made⟩ := found
  cases made
  have fromItem : Text.ReadFrom size text :=
    (within.record isRecord).of_field readFrom_nil (fun _ _ => readFrom_of_text?) isText
  exact fromItem

theorem readFrom_of_image? {image : Image} (within : item.Within size)
    (found : image? item = some image) : image.ReadFrom size := by
  simp only [image?, Option.bind_eq_bind, Option.bind_eq_some_iff] at found
  obtain ⟨record, isRecord, _, _, _, _, _, _, code, isCode, functions, areFunctions, made⟩ := found
  cases made
  have entries := within.record isRecord
  let FromItem (written : Written) : Prop := Text.ReadFrom size written.text
  have atZero : FromItem {} := readFrom_nil
  have ofRead : ∀ (item : Item) (written : Written), item.Within size →
      written? item = some written → FromItem written := fun _ _ => readFrom_of_written?
  obtain ⟨few, texts⟩ := entries.of_listField atZero ofRead isCode
  have emptyFunction : Declaration.ReadFrom size {} :=
    ⟨readFrom_nil, List.forall_mem_nil _, Nat.zero_le _⟩
  obtain ⟨fewFunctions, declarations⟩ := entries.of_listField emptyFunction
    (fun _ _ => readFrom_of_declaration?) areFunctions
  exact ⟨few, texts, fewFunctions, declarations⟩

theorem readFrom_of_unmarshal {bytes : Text} {image : Image}
    (read : codec.unmarshal bytes = some image) : image.ReadFrom bytes.length := by
  obtain ⟨item, isItem, isImage⟩ := Option.bind_eq_some_iff.mp read
  have empty : Image.ReadFrom bytes.length {} :=
    ⟨Nat.zero_le _, List.forall_mem_nil _, Nat.zero_le _, List.forall_mem_nil _⟩
  exact (Item.within_of_read? isItem).of_orZero empty (fun _ _ => readFrom_of_image?) isImage

/-! ### The laws -/

theorem ofWritten_unsigned (written : Written) :
    ofWritten written.unsigned = ofWritten written := by
  have number : (if Number.unsigned written.number == 0 then none
      else some (Item.float (Number.unsigned written.number))) =
      if written.number == 0 then none else some (Item.float written.number) := by
    unfold Number.unsigned
    by_cases zero : written.number == 0
    · have plain : ((0 : Float) == 0) = true := by decide +kernel
      simp only [zero, if_true, plain]
    · simp only [zero, if_false, Bool.false_eq_true]
  unfold ofWritten Written.unsigned
  dsimp only
  rw [number]

theorem ofImage_unsigned (image : Image) : ofImage image.unsigned = ofImage image := by
  have code : image.unsigned.code.map ofWritten = image.code.map ofWritten := by
    rw [unsigned, List.map_map]
    exact List.map_congr_left fun written _ => ofWritten_unsigned written
  unfold ofImage
  rw [code]
  rfl

/-- The engine's own codec is `Codec.Lawful`, if sequences of `Item.sizeLimit` members at most are
read. -/
theorem lawful : codec.Lawful Item.sizeLimit where
  small := by decide
  writes image _ := ⟨(ofImage image).write, rfl⟩
  omits image := congrArg (some ∘ Item.write) (ofImage_unsigned image)
  inverse image bytes sized legible written := by
    cases written
    exact unmarshal_of_legible sized legible
  faithful image other bytes sized written read := by
    cases written
    rw [unmarshal_of_legible sized (legible_of_unmarshal sized read)] at read
    exact (Option.some.inj read).symm
  legible image bytes read := (readFrom_of_unmarshal read).legible
  sized image bytes short read := (readFrom_of_unmarshal read).sized short

end Image.Cbor

end ScriptEngine
