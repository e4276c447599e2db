/-
This file says what becomes of an assembled program in its image, with any lawful codec. Every
assembled program has an image, and its functions keep their numbers in it. If the program is
legible, what is read is the program itself, but that no number keeps the sign of a zero; otherwise
the image is unreadable. So a program that is legible and has no negative zero is the program of its
image, and running the one is running the other; of every other program the image is unreadable or
another program.
-/

import Mathlib
import ScriptEngine.Proofs.Completeness
import ScriptEngine.Proofs.Image.RoundTrip
import ScriptEngine.Runner.CommandLine

namespace ScriptEngine

/-! ### Programs whose images can be read -/

/-- A program whose texts are well-formed, and which has so many instructions at most; all its
functions are `Declaration.Legible`. -/
structure Program.Legible (limit : ℕ) (program : Program) : Prop where
  texts : ∀ instruction ∈ program.code, instruction.datum.text.isUtf8
  functions : ∀ declaration ∈ program.items, declaration.Legible limit
  few : program.code.size ≤ limit

/-- A program whose lengths are numbers of 64 bits, as those of all things in memory are. -/
structure Program.Sized (program : Program) : Prop where
  code : program.code.size < 2 ^ 63
  texts : ∀ instruction ∈ program.code, instruction.datum.text.length < 2 ^ 63
  functions : ∀ declaration ∈ program.items, declaration.Sized

theorem Image.forall_mem_code_ofProgram {program : Program} (holds : Text → Prop) :
    (∀ written ∈ (ofProgram program).code, holds written.text) ↔
      ∀ instruction ∈ program.code, holds instruction.datum.text := by
  rw [ofProgram, List.forall_mem_map]
  simp only [Array.mem_toList_iff]
  rfl

theorem Image.forall_mem_functions_ofProgram {program : Program} {holds : Declaration → Prop} :
    (∀ declaration ∈ (ofProgram program).functions, holds declaration) ↔
      ∀ declaration ∈ program.items, holds declaration := by
  simp only [ofProgram, Array.mem_toList_iff]

theorem Image.length_code_ofProgram (program : Program) :
    (ofProgram program).code.length = program.code.size := by
  rw [ofProgram, List.length_map, Array.length_toList]

/-! ### Assembled programs -/

/-- Functions that are used in order, `Ordered`, are met in order, by `firstUses`. -/
theorem firstUses_of_ordered {declarations : List Declaration} {uses : List ℕ}
    (ordered : Ordered declarations uses) : firstUses [] uses = List.range (reach uses) := by
  induction uses using List.reverseRecOn with
  | nil => rfl
  | append_singleton before last inductionHypothesis =>
    have earlier : Ordered declarations before := fun front use behind split =>
      ordered front use (behind ++ [last]) (by rw [split, List.append_assoc, List.cons_append])
    have step : firstUses [] (before ++ [last]) = (placeOf (firstUses [] before) last).2 :=
      List.foldl_append
    rw [step, inductionHypothesis earlier, reach_append_singleton, placeOf_snd]
    rcases ordered before last [] rfl with next | ⟨again, -⟩
    · rw [if_neg (by simp [next]), next, max_eq_right (Nat.le_succ _), List.range_succ]
    · rw [if_pos (List.mem_range.mpr again), max_eq_left again]

theorem Datum.Suits.exists_object {datum : Datum ℕ} {operand : Opcode.OperandClass}
    (suits : datum.Suits operand) (kind : datum.kind = .object) :
    ∃ index, datum.object = some index := by
  cases operand with
  | none | jump =>
    rw [show datum = {} from suits] at kind
    cases kind
  | name => obtain ⟨text, rfl | rfl⟩ := suits <;> cases kind
  | count =>
    obtain ⟨count, rfl⟩ := suits
    cases kind
  | literal =>
    cases suits with
    | null | number | text | bool => cases kind
    | object index => exact ⟨index, rfl⟩

/-- The operand of an instruction that is `Image.Linked`, if it is meant to be an object, is a
function of the program. -/
theorem Image.Linked.exists_item {program : Program} {instruction : Instruction ℕ}
    (linked : Image.Linked program.items.size instruction)
    (object : instruction.datum.kind = .object) :
    ∃ declaration ∈ program.items, program.item? instruction.datum = some declaration := by
  obtain ⟨index, below, refers⟩ := linked.object object
  refine ⟨program.items[index], Array.getElem_mem below, ?_⟩
  rw [ProgramOf.item?, refers, Option.bind_some, Array.getElem?_eq_getElem below]

theorem Program.scripted_of_linked {program : Program}
    (linked : ∀ instruction ∈ program.code, Image.Linked program.items.size instruction) :
    program.snapshot.Scripted := by
  intro instruction member object
  obtain ⟨declaration, -, found⟩ := (linked instruction member).exists_item object
  exact ⟨declaration, by rw [ProgramOf.item?_snapshot, found]; rfl⟩

namespace Program.Assembled

variable {program : Program}

theorem linked (assembled : program.Assembled) :
    ∀ instruction ∈ program.code, Image.Linked program.items.size instruction := by
  intro instruction member
  have suits := (assembled.code instruction (Array.mem_toList_iff.mpr member)).datum
  refine ⟨fun object => ?_, fun other => ?_⟩
  · obtain ⟨index, refers⟩ := suits.exists_object object
    exact ⟨index, assembled.complete instruction member index refers, refers⟩
  · by_contra refers
    obtain ⟨index, refers⟩ := Option.ne_none_iff_exists'.mp refers
    exact other (suits.kind refers)

theorem met_snapshot (assembled : program.Assembled) :
    program.snapshot.met = List.range program.items.size := by
  have ordered := firstUses_of_ordered assembled.declared.ordered
  rw [assembled.declared.all, Array.length_toList] at ordered
  exact ordered

theorem size_items_le (assembled : program.Assembled) :
    program.items.size ≤ program.code.size := by
  have bound := program.snapshot.length_met_le
  rwa [assembled.met_snapshot, List.length_range] at bound

theorem scripted (assembled : program.Assembled) : program.snapshot.Scripted :=
  scripted_of_linked assembled.linked

theorem numbered_eq (assembled : program.Assembled) {instruction : Instruction ℕ}
    (member : instruction ∈ program.code) :
    instruction.numbered program.snapshot.met = instruction := by
  have object : instruction.function?.map (program.snapshot.met.idxOf ·) =
      instruction.datum.object := by
    have linked := assembled.linked instruction member
    by_cases isObject : instruction.datum.kind = .object
    · obtain ⟨index, below, refers⟩ := linked.object isObject
      have place := List.nodup_range.idxOf_getElem index (by rwa [List.length_range])
      rw [List.getElem_range] at place
      rw [Instruction.function?, if_pos isObject, refers, assembled.met_snapshot,
        Option.map_some, place]
    · rw [Instruction.function?_of_ne isObject, linked.other isObject, Option.map_none]
  unfold Instruction.numbered
  rw [object]

/-- The functions of an `Assembled` program keep their numbers when it is `renumbered`. -/
theorem renumbered_eq (assembled : program.Assembled) : program.snapshot.renumbered = program := by
  have code : program.code.map (Instruction.numbered program.snapshot.met) = program.code := by
    rw [Array.map_congr_left (fun instruction member =>
      show instruction.numbered program.snapshot.met = id instruction from
        assembled.numbered_eq member), Array.map_id]
  have items : (program.snapshot.met.map program.snapshot.declared).toArray = program.items := by
    rw [assembled.met_snapshot]
    refine Array.ext (by simp) fun index _ below => ?_
    have declared : program.snapshot.declared index = program.items[index] := by
      simp [ProgramOf.declared, Program.snapshot, below, Embedded.declaration?]
    simpa using declared
  have whole : program.snapshot.renumbered =
      { code := program.code.map (Instruction.numbered program.snapshot.met)
        items := (program.snapshot.met.map program.snapshot.declared).toArray
        start := program.start
        stop := program.stop } := rfl
  rw [whole, code, items]

theorem isValid_of_mem {opcode : Opcode} (member : opcode ∈ Opcode.valid) : opcode.isValid := by
  revert opcode
  decide

theorem consistent (assembled : program.Assembled) (sized : program.Sized) :
    Image.Consistent program := by
  obtain ⟨start, stop, ordered, within, isStart, isStop⟩ := assembled.bounds
  have sizeCode := sized.code
  have startValue : program.start.toInt = start := by
    rw [isStart, Int64.toInt_ofNat_of_lt (by omega)]
  have stopValue : program.stop.toInt = stop := by
    rw [isStop, Int64.toInt_ofNat_of_lt (by omega)]
  exact {
    nonneg := by
      rw [Int64.le_iff_toInt_le, startValue, Int64.toInt_zero]
      omega
    ordered := by
      rw [Int64.le_iff_toInt_le, startValue, stopValue]
      omega
    within := by
      rw [stopValue]
      omega
    valid := fun instruction member =>
      isValid_of_mem (assembled.code instruction (Array.mem_toList_iff.mpr member)).opcode
    linked := assembled.linked }

theorem sized_ofProgram (assembled : program.Assembled) (sized : program.Sized) :
    (Image.ofProgram program).Sized where
  code := by
    rw [Image.length_code_ofProgram]
    exact sized.code
  texts := (Image.forall_mem_code_ofProgram (·.length < 2 ^ 63)).mpr sized.texts
  functions := by
    rw [Image.ofProgram, Array.length_toList]
    exact assembled.size_items_le.trans_lt sized.code
  declarations := Image.forall_mem_functions_ofProgram.mpr sized.functions

theorem legible_ofProgram_iff (assembled : program.Assembled) {limit : ℕ} :
    (Image.ofProgram program).Legible limit ↔ program.Legible limit := by
  constructor
  · intro legible
    exact ⟨(Image.forall_mem_code_ofProgram (Text.isUtf8 ·)).mp legible.texts,
      Image.forall_mem_functions_ofProgram.mp legible.declarations,
      Image.length_code_ofProgram program ▸ legible.code⟩
  · intro legible
    refine ⟨Image.length_code_ofProgram program ▸ legible.few,
      (Image.forall_mem_code_ofProgram (Text.isUtf8 ·)).mpr legible.texts, ?_,
      Image.forall_mem_functions_ofProgram.mpr legible.functions⟩
    rw [Image.ofProgram, Array.length_toList]
    exact assembled.size_items_le.trans legible.few

variable {codec : Image.Codec} {bytes : Text}

/-- What is written from the image of an assembled program are the bytes of it. -/
theorem encode_eq (assembled : program.Assembled)
    (written : codec.marshal (Image.ofProgram program) = some bytes) :
    codec.encode program.snapshot = .ok bytes := by
  refine Image.Codec.encode_of_scripted assembled.scripted ?_
  rw [assembled.renumbered_eq]
  exact written

/-- With a lawful codec an assembled program has an image, which is read as `Program.unsigned` if
the program is legible, and otherwise not at all. -/
theorem exists_image {limit : ℕ} (assembled : program.Assembled) (lawful : codec.Lawful limit)
    (sized : program.Sized) :
    ∃ image, codec.encode program.snapshot = .ok image ∧
      (program.Legible limit → codec.decode image = .ok program.unsigned) ∧
      (¬ program.Legible limit → codec.decode image = .error .unreadable) := by
  have sizedImage := assembled.sized_ofProgram sized
  obtain ⟨image, written⟩ := lawful.writes _ sizedImage
  refine ⟨image, assembled.encode_eq written, fun legible => ?_, fun illegible => ?_⟩
  · exact lawful.decode_of_legible (assembled.consistent sized) sizedImage
      (assembled.legible_ofProgram_iff.mpr legible) written
  · exact lawful.decode_of_illegible sizedImage
      (fun legible => illegible (assembled.legible_ofProgram_iff.mp legible)) written

end Program.Assembled

/-! ### Building an image and running it -/

namespace Host

/-- The host with a file written at a path. -/
def withFile (host : Host) (path bytes : Text) : Host :=
  { host with content := fun other => if other = path then some bytes else host.content other }

variable {host : Host} {path bytes : Text}

theorem load_withFile_self :
    (host.withFile path bytes).load path = loadProgram host.codec path (some bytes) :=
  congrArg (loadProgram host.codec path) (if_pos rfl)

theorem load_withFile_other {other : Text} (differs : other ≠ path) :
    (host.withFile path bytes).load other = host.load other :=
  congrArg (loadProgram host.codec other) (if_neg differs)

theorem execute_withFile (apart : path ∉ host.settings.preload) (program : Program)
    (session : Session) :
    (host.withFile path bytes).execute program session = host.execute program session := by
  have preload : host.settings.preload.map (host.withFile path bytes).load =
      host.settings.preload.map host.load :=
    List.map_congr_left fun other member =>
      load_withFile_other fun same => apart (same ▸ member)
  show session.executeLoaded host.fuel host.settings.tapOnFault
    (host.settings.preload.map (host.withFile path bytes).load) _ = _
  rw [preload]
  rfl

theorem load_of_assemble {source : Text} {program : Program}
    (there : host.content path = some source) (isSource : suffixOf path ≠ imageSuffix)
    (assembles : Assembly.assemble source = .ok program) : host.load path = .ok program := by
  unfold load loadProgram
  rw [there]
  dsimp only
  rw [if_neg isSource, assembles]
  rfl

theorem load_withFile_image (isImage : suffixOf path = imageSuffix) :
    (host.withFile path bytes).load path = (host.codec.decode bytes).mapError .image :=
  load_withFile_self.trans (if_pos isImage)

end Host

theorem CommandLine.build_of_load {host : Host} {writable : Text → Bool} {input output : Text}
    {program : Program} {image : Text} (loads : host.load input = .ok program)
    (encoded : host.codec.encode program.snapshot = .ok image)
    (canWrite : writable output = true) :
    build host writable input output = { written := some (output, image) } := by
  unfold build
  rw [loads]
  dsimp only
  rw [encoded]
  dsimp only
  rw [if_pos canWrite]

namespace Assembly

/-- With a lawful codec, every program that was assembled has an image. If the program is
`Program.Legible`, the image is read as the program `Program.unsigned`, and otherwise it is
unreadable; so it is the image of the program itself just if the program is legible and
`Program.Unsigned`. Building such a program from a file and running the image is running the
file. -/
theorem image_of_assemble {codec : Image.Codec} {limit : ℕ} {source : Text} {program : Program}
    (lawful : codec.Lawful limit) (assembles : assemble source = .ok program)
    (sized : program.Sized) :
    ∃ image, codec.encode program.snapshot = .ok image ∧
      (program.Legible limit → codec.decode image = .ok program.unsigned) ∧
      (¬ program.Legible limit → codec.decode image = .error .unreadable) ∧
      (codec.decode image = .ok program ↔ program.Legible limit ∧ program.Unsigned) ∧
      ∀ (host : Host) (input output : Text) (writable : Text → Bool),
        host.codec = codec → host.content input = some source →
        suffixOf input ≠ imageSuffix → suffixOf output = imageSuffix →
        writable output = true → output ∉ host.settings.preload →
        CommandLine.build host writable input output = { written := some (output, image) } ∧
          (program.Legible limit → program.Unsigned →
            { (host.withFile output image).runFile output with path := input } =
              host.runFile input ∧
            CommandLine.run (host.withFile output image) output =
              CommandLine.run host input) := by
  have assembled := assembled_of_assemble assembles
  obtain ⟨image, encoded, decodes, fails⟩ := assembled.exists_image lawful sized
  refine ⟨image, encoded, decodes, fails, ⟨?_, ?_⟩, ?_⟩
  · intro same
    have legible : program.Legible limit := by
      by_contra illegible
      rw [fails illegible] at same
      cases same
    rw [decodes legible] at same
    exact ⟨legible, Program.unsigned_eq_self_iff.mp (Except.ok.inj same)⟩
  · rintro ⟨legible, free⟩
    rw [decodes legible, Program.unsigned_eq_self_iff.mpr free]
  · rintro host input output writable rfl there isSource isImage canWrite apart
    have loads := Host.load_of_assemble there isSource assembles
    refine ⟨CommandLine.build_of_load loads encoded canWrite, fun legible free => ?_⟩
    · have loadsImage : (host.withFile output image).load output = .ok program := by
        rw [Host.load_withFile_image isImage, decodes legible,
          Program.unsigned_eq_self_iff.mpr free]
        rfl
      have ran := Host.runFile_of_load loads
      have ranImage := Host.runFile_of_load loadsImage
      rw [Host.execute_withFile apart] at ranImage
      refine ⟨?_, ?_⟩
      · rw [ran, ranImage]
        rfl
      · unfold CommandLine.run
        rw [ran, ranImage]
        rfl

/-- A host with one source. -/
def sourceHost (codec : Image.Codec) (source : Text) : Host :=
  { settings := {}, fuel := 20, codec
    content := fun path => if path = Text.ofString "main.s" then some source else none }

/-- A source that prints what a function makes of a text and a number. -/
def printingSource : Text :=
  [".entry main",
    "f: fetch größe",
    "pushim",
    "push 0.1",
    "adds",
    "ret",
    "main: fetch print",
    "pushim",
    "push \"ä\"",
    "push func f(größe) @f",
    "call 1",
    "call 1"].flatMap fun line => Text.ofString line ++ Text.ofString "\n"

/-- What the source denotes. -/
def printingProgram : Program where
  code := #[
    { opcode := .fetch, datum := .ofName "größe" },
    { opcode := .pushim },
    { opcode := .push, datum := .ofNumber (Number.ofRatio false 1 10) },
    { opcode := .adds },
    { opcode := .ret },
    { opcode := .fetch, datum := .ofName "print" },
    { opcode := .pushim },
    { opcode := .push, datum := .ofText "ä" },
    { opcode := .push, datum := .ofObject (some 0) },
    { opcode := .call, datum := .ofNumber 1 },
    { opcode := .call, datum := .ofNumber 1 }]
  items := #[{ name := "f", params := ["größe"] }]
  start := 5
  stop := 11

theorem image_of_assemble_printing :
    Image.Cbor.codec.Lawful Item.sizeLimit ∧ assemble printingSource = .ok printingProgram ∧
      printingProgram.Sized ∧ printingProgram.Legible Item.sizeLimit ∧
      printingProgram.Unsigned ∧
      ∃ image, Image.encode printingProgram.snapshot = .ok image ∧
        Image.decode image = .ok printingProgram ∧
        CommandLine.run ((sourceHost Image.Cbor.codec printingSource).withFile "main.grokc" image)
            "main.grokc" =
          CommandLine.run (sourceHost Image.Cbor.codec printingSource) "main.s" := by
  have assembles : assemble printingSource = .ok printingProgram := by decide +kernel
  have sized : printingProgram.Sized := by
    refine ⟨by decide, by decide +kernel, ?_⟩
    intro declaration member
    cases List.mem_singleton.mp (Array.mem_toList_iff.mpr member)
    exact ⟨by decide +kernel, by decide +kernel, by decide⟩
  have legible : printingProgram.Legible Item.sizeLimit := by
    refine ⟨by decide +kernel, ?_, by decide⟩
    intro declaration member
    cases List.mem_singleton.mp (Array.mem_toList_iff.mpr member)
    exact ⟨by decide +kernel, by decide +kernel, by decide⟩
  have free : printingProgram.Unsigned := by
    unfold Program.Unsigned
    decide +kernel
  obtain ⟨image, encodes, -, -, decodes, builds⟩ :=
    image_of_assemble Image.Cbor.lawful assembles sized
  have built := builds (sourceHost Image.Cbor.codec printingSource) "main.s" "main.grokc"
    (fun _ => true) rfl rfl (by decide +kernel) (by decide +kernel) rfl (by decide)
  exact ⟨Image.Cbor.lawful, assembles, sized, legible, free, image, encodes,
    decodes.mpr ⟨legible, free⟩, (built.2 legible free).2⟩

/-- A source that prints what a number makes divided by the negative zero. -/
def signedSource : Text :=
  ["fetch print", "pushim", "push 1", "push -0", "divs", "call 1"].flatMap
    fun line => Text.ofString line ++ Text.ofString "\n"

/-- What the source denotes. -/
def signedProgram : Program where
  code := #[
    { opcode := .fetch, datum := .ofName "print" },
    { opcode := .pushim },
    { opcode := .push, datum := .ofNumber 1 },
    { opcode := .push, datum := .ofNumber (-0) },
    { opcode := .divs },
    { opcode := .call, datum := .ofNumber 1 }]
  stop := 6

/-- A source with a text that is not well-formed. -/
def illegibleSource : Text := Text.ofString "push \"\\xff\""

/-- What it denotes. -/
def illegibleProgram : Program where
  code := #[{ opcode := .push, datum := .ofText [255] }]
  stop := 1

/-- What a program comes to on the new machine of a `sourceHost`. -/
def sourceReport (program : Program) : Report :=
  let (session, execution) := (Session.new {}).executeLoaded 20 false [] (·.load program)
  { exitCode := Report.codeOf execution, output := Report.printed session.machine }

theorem run_of_load {host : Host} {path : Text} {program : Program}
    (loads : host.load path = .ok program) (settings : host.settings = {})
    (fuel : host.fuel = 20) : CommandLine.run host path = sourceReport program := by
  have executed : host.execute program host.newSession =
      (Session.new {}).executeLoaded 20 false [] (·.load program) := by
    unfold Host.execute Host.executeLoaded Host.newSession
    rw [settings, fuel]
    rfl
  unfold CommandLine.run sourceReport
  rw [Host.runFile_of_load loads]
  dsimp only
  rw [executed]

/-- What comes of a source on the `sourceHost` that is built and of the image that is run instead of
it. -/
theorem exists_image_sourceHost {codec : Image.Codec} {limit : ℕ} {source : Text}
    {program : Program} (lawful : codec.Lawful limit) (assembles : assemble source = .ok program)
    (sized : program.Sized) :
    ∃ image,
      CommandLine.build (sourceHost codec source) (fun _ => true) "main.s" "main.grokc" =
        { written := some ("main.grokc", image) } ∧
      CommandLine.run (sourceHost codec source) "main.s" = sourceReport program ∧
      (program.Legible limit →
        CommandLine.run ((sourceHost codec source).withFile "main.grokc" image) "main.grokc" =
          sourceReport program.unsigned) ∧
      (¬ program.Legible limit →
        CommandLine.run ((sourceHost codec source).withFile "main.grokc" image) "main.grokc" =
          { exitCode := Report.failure }) := by
  obtain ⟨image, encoded, decodes, fails⟩ :=
    (assembled_of_assemble assembles).exists_image lawful sized
  have loads : (sourceHost codec source).load "main.s" = .ok program :=
    Host.load_of_assemble rfl (by decide +kernel) assembles
  have loadsImage : ((sourceHost codec source).withFile "main.grokc" image).load "main.grokc" =
      (codec.decode image).mapError .image := Host.load_withFile_image (by decide +kernel)
  refine ⟨image, CommandLine.build_of_load loads encoded rfl, ?_, fun legible => ?_,
    fun illegible => ?_⟩
  · exact run_of_load loads rfl rfl
  · rw [decodes legible] at loadsImage
    exact run_of_load loadsImage rfl rfl
  · rw [fails illegible] at loadsImage
    unfold CommandLine.run
    rw [Host.runFile_of_error loadsImage]
    rfl

/-- With any lawful codec, the image of a program with a negative zero prints something else than
the program, and the image of a program with a text that is not well-formed cannot be run. -/
theorem image_changes_program :
    Image.Cbor.codec.Lawful Item.sizeLimit ∧
      ∀ (codec : Image.Codec) (limit : ℕ), codec.Lawful limit →
        (∃ image,
          CommandLine.build (sourceHost codec signedSource) (fun _ => true) "main.s"
              "main.grokc" = { written := some ("main.grokc", image) } ∧
          CommandLine.run (sourceHost codec signedSource) "main.s" =
            { output := "-Infinity\n" } ∧
          CommandLine.run ((sourceHost codec signedSource).withFile "main.grokc" image)
              "main.grokc" = { output := "Infinity\n" }) ∧
          ∃ image,
            CommandLine.build (sourceHost codec illegibleSource) (fun _ => true) "main.s"
                "main.grokc" = { written := some ("main.grokc", image) } ∧
            CommandLine.run (sourceHost codec illegibleSource) "main.s" = {} ∧
            CommandLine.run ((sourceHost codec illegibleSource).withFile "main.grokc" image)
                "main.grokc" = { exitCode := Report.failure } := by
  refine ⟨Image.Cbor.lawful, fun codec limit lawful => ⟨?_, ?_⟩⟩
  · have sized : signedProgram.Sized :=
      ⟨by decide, by decide +kernel, fun _ member => absurd member (Array.not_mem_empty _)⟩
    have few : 6 ≤ limit := (show 6 ≤ 16 by decide).trans lawful.small.1
    have legible : signedProgram.Legible limit :=
      ⟨by decide +kernel, fun _ member => absurd member (Array.not_mem_empty _), few⟩
    have prints : sourceReport signedProgram = { output := "-Infinity\n" } := by decide +kernel
    have printsOther : sourceReport signedProgram.unsigned = { output := "Infinity\n" } := by
      decide +kernel
    obtain ⟨image, built, ran, ranImage, -⟩ := exists_image_sourceHost lawful
      (show assemble signedSource = .ok signedProgram by decide +kernel) sized
    exact ⟨image, built, ran.trans prints, (ranImage legible).trans printsOther⟩
  · have sized : illegibleProgram.Sized :=
      ⟨by decide, by decide +kernel, fun _ member => absurd member (Array.not_mem_empty _)⟩
    have illegible : ¬ illegibleProgram.Legible limit := fun legible =>
      absurd (legible.texts _ (Array.mem_singleton.mpr rfl)) (by decide)
    have prints : sourceReport illegibleProgram = {} := by decide +kernel
    obtain ⟨image, built, ran, -, fails⟩ := exists_image_sourceHost lawful
      (show assemble illegibleSource = .ok illegibleProgram by decide +kernel) sized
    exact ⟨image, built, ran.trans prints, fails illegible⟩

end Assembly

end ScriptEngine
