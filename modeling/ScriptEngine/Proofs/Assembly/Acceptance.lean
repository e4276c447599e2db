/-
This file proves that the assembler accepts exactly the grammar: the sources that it assembles are
those whose words spell lines that go together as a program. Line by line the outline of the draft
is that of the lines read so far, so that a line is accepted if it goes together with those; and
linking succeeds if the labels that all the lines use are among those they declare.
-/

import Mathlib
import ScriptEngine.Proofs.Assembly.Phrases

namespace ScriptEngine.Assembly

/-! ### Outlines of lines -/

/-- The name and the entry of a function that is declared, as outlines hold them. -/
def FunctionPhrase.signature? : FunctionPhrase → Option (Text × Text)
  | reference _ => none
  | declaration name _ label _ => some ((name.map Subtype.val).getD [], label)

namespace Outline

variable (outline : Outline)

theorem operand_eq {operand : Opcode.OperandClass} (phrase : OperandPhrase operand) :
    outline.operand phrase = { outline with
      targets := outline.targets ++ phrase.target?.toList
      functions := outline.functions ++
        (phrase.function?.bind FunctionPhrase.signature?).toList } := by
  cases phrase with
  | target label => simp [Outline.operand, OperandPhrase.target?, OperandPhrase.function?]
  | function phrase =>
    cases phrase <;>
    simp [Outline.operand, Outline.function, OperandPhrase.target?, OperandPhrase.function?,
      FunctionPhrase.signature?]
  | _ => simp [Outline.operand, OperandPhrase.target?, OperandPhrase.function?]

/-- What `line` adds to an outline: labels, targets, and the signature of a function. -/
theorem line_eq (line : LinePhrase) :
    outline.line line =
      { size := outline.size + if line.isInstruction then 1 else 0
        labels := outline.labels ++ line.label.toList.map (·, outline.size)
        targets := outline.targets ++ line.target?.toList
        functions := outline.functions ++
          (line.function?.bind FunctionPhrase.signature?).toList
        entry := line.entry?.or outline.entry
        stop := line.stop?.or outline.stop } := by
  obtain ⟨label, statement⟩ := line
  have labelled : outline.label label = { outline with
      labels := outline.labels ++ label.toList.map (·, outline.size) } := by
    cases label <;> simp [Outline.label]
  rcases statement with _ | (label | label | ⟨opcode, valid, operand⟩)
  all_goals
    simp [Outline.line, labelled, Outline.statement, operand_eq, LinePhrase.isInstruction,
      LinePhrase.target?, LinePhrase.function?, LinePhrase.entry?, LinePhrase.stop?,
      StatementPhrase.isInstruction, StatementPhrase.target?, StatementPhrase.function?,
      StatementPhrase.entry?, StatementPhrase.stop?]

end Outline

/-- The outline of some lines. -/
def outlineOf (lines : List LinePhrase) : Outline := lines.foldl Outline.line {}

theorem outlineOf_append_singleton (lines : List LinePhrase) (line : LinePhrase) :
    outlineOf (lines ++ [line]) = (outlineOf lines).line line := by
  unfold outlineOf
  rw [List.foldl_append]
  rfl

theorem filterMap_append_singleton {Source Target : Type} (part? : Source → Option Target)
    (sources : List Source) (last : Source) :
    (sources ++ [last]).filterMap part? = sources.filterMap part? ++ (part? last).toList := by
  rw [List.filterMap_append, List.filterMap_cons]
  cases part? last <;> rfl

theorem mem_declaredLabels {lines : List LinePhrase} {label : Text} :
    label ∈ declaredLabels lines ↔ ∃ line ∈ lines, line.label = some label :=
  List.mem_filterMap

/-- The address of a label, `labelAddress`, does not depend on the lines behind it. -/
theorem labelAddress_of_declared {lines : List LinePhrase} {label : Text}
    (declared : label ∈ declaredLabels lines) (line : LinePhrase) :
    labelAddress (lines ++ [line]) label = labelAddress lines label := by
  unfold labelAddress
  rw [List.takeWhile_append, if_neg]
  intro whole
  have all := (List.takeWhile_prefix _).eq_of_length whole
  rw [List.takeWhile_eq_self_iff] at all
  obtain ⟨found, member, isLabel⟩ := mem_declaredLabels.mp declared
  exact of_decide_eq_true (all found member) isLabel

/-- A label that is not among the `declaredLabels` becomes that of the instruction behind all those
so far. -/
theorem labelAddress_of_fresh {lines : List LinePhrase} {line : LinePhrase} {label : Text}
    (fresh : label ∉ declaredLabels lines) (isLabel : line.label = some label) :
    labelAddress (lines ++ [line]) label = instructionCount lines := by
  have whole : lines.takeWhile (fun line => line.label ≠ some label) = lines := by
    rw [List.takeWhile_eq_self_iff]
    intro other member
    exact decide_eq_true fun same => fresh (mem_declaredLabels.mpr ⟨other, member, same⟩)
  unfold labelAddress
  rw [List.takeWhile_append, whole, if_pos rfl, List.takeWhile_cons, if_neg (by simp [isLabel]),
    List.append_nil]

/-- An outline holds what some lines declare and use: the `declaredLabels` with a `labelAddress` for
each, and the labels that jumps and functions name. -/
structure Outline.Describes (outline : Outline) (lines : List LinePhrase) : Prop where
  size : outline.size = instructionCount lines
  labels : outline.labels.map Prod.fst = declaredLabels lines
  addresses : ∀ label ∈ declaredLabels lines,
    outline.labels.lookup label = some (labelAddress lines label)
  targets : outline.targets = targetLabels lines
  names : ∀ name : Name, name.val ∈ outline.names ↔ name ∈ declaredNames lines
  entries : outline.functions.map Prod.snd = entryLabels lines
  entry : outline.entry = startLabel? lines
  stop : outline.stop = stopLabel? lines

theorem getLast?_toList {Value : Type} (value : Option Value) : value.toList.getLast? = value := by
  cases value <;> rfl

namespace Outline.Describes

variable {outline : Outline} {lines : List LinePhrase}

theorem lookup_eq_none (describes : outline.Describes lines) {label : Text}
    (fresh : label ∉ declaredLabels lines) : outline.labels.lookup label = none := by
  rw [List.lookup_eq_none_iff]
  intro pair member
  refine bne_iff_ne.mpr fun same => fresh ?_
  rw [← describes.labels, same]
  exact List.mem_map_of_mem member

/-- A label is looked up behind one more line. -/
theorem lookup_line (describes : outline.Describes lines) {line : LinePhrase} {label : Text}
    (declared : label ∈ declaredLabels (lines ++ [line])) :
    (outline.labels ++ line.label.toList.map (·, outline.size)).lookup label =
      some (labelAddress (lines ++ [line]) label) := by
  rw [List.lookup_append]
  by_cases earlier : label ∈ declaredLabels lines
  · rw [describes.addresses label earlier, labelAddress_of_declared earlier]
    rfl
  · have isLabel : line.label = some label := by
      obtain ⟨found, member, isLabel⟩ := mem_declaredLabels.mp declared
      rcases List.mem_append.mp member with among | last
      · exact absurd (mem_declaredLabels.mpr ⟨found, among, isLabel⟩) earlier
      · rwa [List.mem_singleton.mp last] at isLabel
    rw [describes.lookup_eq_none earlier, labelAddress_of_fresh earlier isLabel, isLabel,
      describes.size]
    simp

theorem names_line (describes : outline.Describes lines) (line : LinePhrase) (name : Name) :
    name.val ∈ (outline.line line).names ↔ name ∈ declaredNames (lines ++ [line]) := by
  have last : name.val ∈ (line.function?.bind FunctionPhrase.signature?).toList.map Prod.fst ↔
      name ∈ (line.function?.bind FunctionPhrase.declared?).toList := by
    rcases line.function? with _ | (other | ⟨_ | other, params, label, constructs⟩)
    · simp
    · simp [FunctionPhrase.signature?, FunctionPhrase.declared?]
    · simp [FunctionPhrase.signature?, FunctionPhrase.declared?, name.property]
    · simp [FunctionPhrase.signature?, FunctionPhrase.declared?, Subtype.ext_iff]
  rw [Outline.line_eq, Outline.names, List.map_append, List.mem_append, declaredNames,
    filterMap_append_singleton, List.mem_append]
  exact or_congr (describes.names name) last

end Outline.Describes

theorem describes_outlineOf (lines : List LinePhrase) : (outlineOf lines).Describes lines := by
  induction lines using List.reverseRecOn with
  | nil => constructor <;> simp [outlineOf, declaredLabels, instructionCount, targetLabels,
      Outline.names, declaredNames, entryLabels, startLabel?, stopLabel?]
  | append_singleton lines line ih =>
    rw [outlineOf_append_singleton]
    have names := ih.names_line line
    rw [Outline.line_eq] at names ⊢
    constructor
    · simp only [ih.size, instructionCount, List.countP_append, List.countP_singleton]
    · have last : (line.label.toList.map (·, (outlineOf lines).size)).map Prod.fst =
          line.label.toList := by cases line.label <;> rfl
      simp only [List.map_append, ih.labels, declaredLabels, filterMap_append_singleton, last]
    · exact fun label declared => ih.lookup_line declared
    · simp only [ih.targets, targetLabels, filterMap_append_singleton]
    · exact names
    · have last : (line.function?.bind FunctionPhrase.signature?).toList.map Prod.snd =
          (line.function?.bind FunctionPhrase.entry?).toList := by
        rcases line.function? with _ | (name | ⟨name, params, label, constructs⟩) <;> rfl
      simp only [List.map_append, ih.entries, entryLabels, filterMap_append_singleton, last]
    · simp only [ih.entry, startLabel?, filterMap_append_singleton, List.getLast?_append,
        getLast?_toList]
    · simp only [ih.stop, stopLabel?, filterMap_append_singleton, List.getLast?_append,
        getLast?_toList]

/-! ### Which lines can be added -/

/-- Labels are declared once, and functions are declared once and in front of their uses. -/
structure Declares (lines : List LinePhrase) : Prop where
  labels : (declaredLabels lines).Nodup
  functions : ∀ before line after, lines = before ++ line :: after →
    ∀ phrase ∈ line.function?, phrase.Follows (declaredNames before)

theorem declares_nil : Declares [] where
  labels := List.nodup_nil
  functions _ _ _ split := by simp at split

theorem Declares.of_append {lines others : List LinePhrase}
    (declares : Declares (lines ++ others)) : Declares lines where
  labels := by
    have labels := declares.labels
    rw [declaredLabels, List.filterMap_append] at labels
    exact labels.of_append_left
  functions := by
    rintro before line after rfl
    exact declares.functions before line (after ++ others) (by simp)

theorem admits_iff_follows {outline : Outline} {lines : List LinePhrase}
    (describes : outline.Describes lines) (phrase : FunctionPhrase) :
    outline.Admits phrase ↔ phrase.Follows (declaredNames lines) := by
  cases phrase with
  | reference name => exact describes.names name
  | declaration name _ _ _ =>
    exact forall₂_congr fun other _ => not_congr (describes.names other)

/-- A line can be added to lines that are `Declares` if their outline `Allows` it. -/
theorem declares_append_singleton {lines : List LinePhrase} {line : LinePhrase} :
    Declares (lines ++ [line]) ↔ Declares lines ∧ (outlineOf lines).Allows line := by
  have describes := describes_outlineOf lines
  constructor
  · intro declares
    refine ⟨declares.of_append, ?_, ?_⟩
    · intro label isLabel
      have labels := declares.labels
      rw [declaredLabels, filterMap_append_singleton, List.nodup_append] at labels
      rw [describes.labels]
      exact fun earlier => labels.2.2 label earlier label (Option.mem_toList.mpr isLabel) rfl
    · intro phrase isFunction
      exact (admits_iff_follows describes phrase).mpr
        (declares.functions lines line [] rfl phrase isFunction)
  · rintro ⟨declares, fresh, admits⟩
    refine ⟨?_, forall_split_append_singleton.mpr ⟨declares.functions, ?_⟩⟩
    · rw [declaredLabels, filterMap_append_singleton, List.nodup_append]
      refine ⟨declares.labels, ?_, ?_⟩
      · cases line.label <;> simp
      · rintro label earlier _ last rfl
        rw [describes.labels] at fresh
        exact fresh label (Option.mem_toList.mp last) earlier
    · intro phrase isFunction
      exact (admits_iff_follows describes phrase).mp (admits phrase isFunction)

/-! ### Reading lines -/

theorem FunctionPhrase.inside (phrase : FunctionPhrase) :
    ∀ word ∈ phrase.words, ¬ word.1.IsEnd := by
  cases phrase with
  | reference name => simp [words, TokenKind.IsEnd]
  | declaration name params label constructs =>
    have parameters : ∀ word ∈ parametersWords params, ¬ word.1.IsEnd := by
      rw [parametersWords_eq]
      exact fun word member => not_isEnd_of_mem_words member
    unfold words declarationWords
    simp only [List.forall_mem_append, List.forall_mem_cons, List.forall_mem_map]
    refine ⟨?_, ?_, parameters, ?_, ?_, ?_, ?_⟩
    all_goals simp [TokenKind.IsEnd]

theorem OperandPhrase.inside {operand : Opcode.OperandClass} (phrase : OperandPhrase operand) :
    ∀ word ∈ phrase.words, ¬ word.1.IsEnd := by
  cases phrase with
  | function phrase =>
    refine List.forall_mem_cons.mpr ⟨?_, phrase.inside⟩
    simp [TokenKind.IsEnd]
  | _ => simp [words, TokenKind.IsEnd]

/-- No word of a line ends it. -/
theorem LinePhrase.inside (phrase : LinePhrase) : ∀ word ∈ phrase.words, ¬ word.1.IsEnd := by
  obtain ⟨label, statement⟩ := phrase
  refine List.forall_mem_append.mpr ⟨?_, ?_⟩
  · cases label <;> simp [labelWords, TokenKind.IsEnd]
  · rcases statement with _ | (label | label | ⟨opcode, valid, operand⟩)
    · exact List.forall_mem_nil _
    · simp [StatementPhrase.words, StatementPhrase.operandWords, TokenKind.IsEnd]
    · simp [StatementPhrase.words, StatementPhrase.operandWords, TokenKind.IsEnd]
    · refine List.forall_mem_cons.mpr ⟨?_, operand.inside⟩
      simp [TokenKind.IsEnd]

/-- The tokens of a line spell a phrase, and the end of the line. -/
def Spells (tokens : List Token) (phrase : LinePhrase) : Prop :=
  ∃ last : Word, last.1.IsEnd ∧ tokens.map Token.word = phrase.words ++ [last]

/-- A draft has the `outlineOf` some lines, and each jump and each push where its line has it. -/
structure Draft.Follows (draft : Draft) (lines : List LinePhrase) : Prop where
  outline : draft.outline = outlineOf lines
  targets : ∀ before line after, lines = before ++ line :: after →
    ∀ label ∈ line.target?, (instructionCount before, label) ∈ draft.targets
  pushes : ∀ before line after, lines = before ++ line :: after → ∀ opcode ∈ line.opcode?,
    draft.pushes[instructionCount before]? =
      some (opcode, line.function?.bind (FunctionPhrase.number? (outlineOf before).names))

theorem Draft.follows_empty : Follows {} [] where
  outline := rfl
  targets _ _ _ split := by simp at split
  pushes _ _ _ split := by simp at split

/-- A line is placed, by `Places`, behind those that a draft `Follows`. -/
theorem Draft.Follows.line {draft after : Draft} {lines : List LinePhrase} {line : LinePhrase}
    (follows : draft.Follows lines) (outline : after.outline = draft.outline.line line)
    (places : draft.Places line.opcode? line.target? line.function? after) :
    after.Follows (lines ++ [line]) := by
  have size : draft.code.size = instructionCount lines := by
    rw [← (describes_outlineOf lines).size, ← follows.outline]
    rfl
  have length : draft.pushes.length = instructionCount lines := by
    rw [← size, Draft.pushes, List.length_map, Array.length_toList]
  refine ⟨by rw [outline, follows.outline, outlineOf_append_singleton],
    forall_split_append_singleton.mpr ⟨?_, ?_⟩, forall_split_append_singleton.mpr ⟨?_, ?_⟩⟩
  · intro before other behind split label isTarget
    rw [places.targets]
    exact List.mem_append_left _ (follows.targets before other behind split label isTarget)
  · rintro label isTarget
    rw [places.targets, show line.target? = some label from isTarget, size]
    exact List.mem_append_right _ (List.mem_singleton_self _)
  · intro before other behind split opcode isOpcode
    have found := follows.pushes before other behind split opcode isOpcode
    rw [places.pushes, List.getElem?_append_left (List.getElem?_eq_some_iff.mp found).1, found]
  · intro opcode isOpcode
    rw [places.pushes, show line.opcode? = some opcode from isOpcode, ← length, Option.toList_some,
      List.map_singleton, List.getElem?_concat_length, follows.outline]

/-- Lines that spell phrases which go together, `Declares`, are read to a draft that `Follows` them.
-/
theorem exists_readLines {lines : List (List Token)} {phrases before : List LinePhrase}
    {draft : Draft} (spells : List.Forall₂ Spells lines phrases)
    (follows : draft.Follows before) (declares : Declares (before ++ phrases)) :
    ∃ after, readLines draft lines = .ok after ∧ after.Follows (before ++ phrases) := by
  induction spells generalizing draft before with
  | nil => exact ⟨draft, rfl, by rwa [List.append_nil]⟩
  | @cons tokens phrase lines phrases spelt _ ih =>
    rw [List.append_cons] at declares
    obtain ⟨_, allows⟩ := declares_append_singleton.mp declares.of_append
    obtain ⟨last, isEnd, isWords⟩ := spelt
    obtain ⟨next, remaining, gives, -, outline, places⟩ :=
      Reads.line (follows.outline ▸ allows) isEnd tokens isWords
    obtain ⟨after, read, isAfter⟩ := ih (follows.line outline places) declares
    refine ⟨after, readLines_cons_eq_ok_iff.mpr ⟨next, remaining, gives, read⟩, ?_⟩
    rwa [List.append_cons]

/-- A line with its only end at the end of it. -/
def IsLine (tokens : List Token) : Prop :=
  ∃ body last, tokens = body ++ [last] ∧ last.kind.IsEnd ∧ ∀ token ∈ body, ¬ token.kind.IsEnd

/-- What is left of a line behind a phrase is the end of the line. -/
theorem spells_of_words {tokens behind : List Token} {phrase : LinePhrase} (isLine : IsLine tokens)
    (isWords : tokens.map Token.word = phrase.words ++ behind.map Token.word)
    (atEnd : ∀ token ∈ behind.head?, token.kind.IsEnd) : Spells tokens phrase := by
  obtain ⟨body, last, rfl, isEnd, inside⟩ := isLine
  refine ⟨last.word, isEnd, ?_⟩
  rw [List.map_append, List.map_singleton] at isWords ⊢
  rcases List.append_eq_append_iff.mp isWords with
    ⟨more, isPhrase, isLast⟩ | ⟨more, isBody, isBehind⟩
  · -- the phrase has at least the words in front of the end, and cannot have the end
    rcases List.append_eq_singleton_iff.mp isLast.symm with ⟨rfl, _⟩ | ⟨rfl, _⟩
    · rw [isPhrase, List.append_nil]
    · exact absurd isEnd (phrase.inside last.word (by simp [isPhrase]))
  · -- what is left in front of the end starts with an end, and there is none
    cases more with
    | nil => rw [isBody, List.append_nil]
    | cons word more =>
      obtain ⟨token, rest, rfl, isToken, -⟩ := List.map_eq_cons_iff.mp isBehind
      have member : word ∈ body.map Token.word := by simp [isBody]
      obtain ⟨other, among, isOther⟩ := List.mem_map.mp member
      have sameKind : other.kind = token.kind := congrArg Prod.fst (isOther.trans isToken.symm)
      exact absurd (atEnd token rfl) (sameKind ▸ inside other among)

/-- Lines that are read to a draft spell phrases that go together, `Declares`. -/
theorem exists_phrases {lines : List (List Token)} {before : List LinePhrase} {draft after : Draft}
    (areLines : ∀ tokens ∈ lines, IsLine tokens)
    (filled : ∀ tokens ∈ lines, ∀ token ∈ tokens, token.kind = .identifier → token.text ≠ [])
    (same : draft.outline = outlineOf before) (declares : Declares before)
    (read : readLines draft lines = .ok after) :
    ∃ phrases, List.Forall₂ Spells lines phrases ∧ Declares (before ++ phrases) ∧
      after.outline = outlineOf (before ++ phrases) := by
  induction lines generalizing draft before with
  | nil =>
    cases read
    exact ⟨[], .nil, by rwa [List.append_nil], by rwa [List.append_nil]⟩
  | cons tokens rest ih =>
    obtain ⟨isLine, otherLines⟩ := List.forall_mem_cons.mp areLines
    obtain ⟨first, others⟩ := List.forall_mem_cons.mp filled
    obtain ⟨next, remaining, ran, read⟩ := readLines_cons_eq_ok_iff.mp read
    obtain ⟨phrase, behind, isWords, atEnd, allows, grown⟩ :=
      Gives.linePhrase first next remaining ran
    rw [same] at allows grown
    have declaresNext := declares_append_singleton.mpr ⟨declares, allows⟩
    rw [← outlineOf_append_singleton] at grown
    obtain ⟨phrases, spells, declaresAll, isAfter⟩ :=
      ih otherLines others grown declaresNext read
    rw [← List.append_cons] at declaresAll isAfter
    exact ⟨phrase :: phrases, .cons (spells_of_words isLine isWords atEnd) spells, declaresAll,
      isAfter⟩

/-! ### Sources -/

theorem isLine_of_mem_tokenLinesFrom {line tokens found : List Token}
    (inside : ∀ token ∈ line, ¬ token.kind.IsEnd) (member : found ∈ tokenLinesFrom line tokens) :
    IsLine found := by
  fun_induction tokenLinesFrom line tokens with
  | case1 => cases member
  | case2 line token rest isEnd ih =>
    rcases List.mem_cons.mp member with rfl | later
    · exact ⟨line, token, rfl, isEnd, inside⟩
    · exact ih (List.forall_mem_nil _) later
  | case3 line token rest notEnd ih =>
    exact ih (List.forall_mem_append.mpr ⟨inside, List.forall_mem_singleton.mpr notEnd⟩) member

theorem sourceWords_cons (phrase next : LinePhrase) (others : List LinePhrase) :
    sourceWords (phrase :: next :: others) =
      phrase.words ++ (.endOfLine, []) :: sourceWords (next :: others) := by
  unfold sourceWords
  rw [List.map_cons, List.map_cons, List.intercalate_cons_cons]
  simp only [List.append_assoc, List.cons_append, List.nil_append]

theorem sourceWords_singleton (phrase : LinePhrase) :
    sourceWords [phrase] = phrase.words ++ [(.endOfInput, [])] := by
  unfold sourceWords
  rw [List.map_singleton, List.intercalate_singleton]

theorem LinePhrase.not_isEnd_of_words {phrase : LinePhrase} {tokens : List Token}
    (isWords : tokens.map Token.word = phrase.words) : ∀ token ∈ tokens, ¬ token.kind.IsEnd :=
  fun token member => phrase.inside token.word (isWords ▸ List.mem_map_of_mem member)

/-- The lines of a source that is spelt by phrases are spelt by them one by one. -/
theorem spells_of_sourceWords {tokens : List Token} {phrase : LinePhrase}
    {others : List LinePhrase} (isWords : tokens.map Token.word = sourceWords (phrase :: others)) :
    List.Forall₂ Spells (tokenLinesFrom [] tokens) (phrase :: others) := by
  induction others generalizing tokens phrase with
  | nil =>
    rw [sourceWords_singleton, List.map_eq_append_iff] at isWords
    obtain ⟨front, behind, rfl, isFront, isBehind⟩ := isWords
    obtain ⟨last, rfl, isLast⟩ := List.map_eq_singleton_iff.mp isBehind
    have isEnd : last.kind.IsEnd := .inr (congrArg Prod.fst isLast)
    rw [tokenLinesFrom_append (phrase.not_isEnd_of_words isFront), tokenLinesFrom_end isEnd]
    refine .cons ⟨last.word, isEnd, ?_⟩ .nil
    rw [List.nil_append, List.map_append, isFront, List.map_singleton]
  | cons next others ih =>
    rw [sourceWords_cons, List.map_eq_append_iff] at isWords
    obtain ⟨front, behind, rfl, isFront, isBehind⟩ := isWords
    obtain ⟨last, rest, rfl, isLast, isRest⟩ := List.map_eq_cons_iff.mp isBehind
    have isEnd : last.kind.IsEnd := .inl (congrArg Prod.fst isLast)
    rw [tokenLinesFrom_append (phrase.not_isEnd_of_words isFront), tokenLinesFrom_end isEnd]
    refine .cons ⟨last.word, isEnd, ?_⟩ (ih isRest)
    rw [List.nil_append, List.map_append, isFront, List.map_singleton]

theorem tokenLinesFrom_ne_nil {last : Token} (isEnd : last.kind.IsEnd) (line body : List Token) :
    tokenLinesFrom line (body ++ [last]) ≠ [] := by
  induction body generalizing line with
  | nil =>
    rw [List.nil_append, tokenLinesFrom_end isEnd]
    exact List.cons_ne_nil _ _
  | cons token rest ih =>
    rw [List.cons_append, tokenLinesFrom]
    split
    · exact List.cons_ne_nil _ _
    · exact ih _

theorem Spells.front {line : List Token} {last : Token} {phrase : LinePhrase}
    (spells : Spells (line ++ [last]) phrase) : line.map Token.word = phrase.words := by
  obtain ⟨word, -, isWords⟩ := spells
  rw [List.map_append, List.map_singleton] at isWords
  exact (List.append_inj' isWords rfl).1

/-- A source whose lines are spelt by phrases is spelt by them. -/
theorem sourceWords_of_spells {line body : List Token} {last : Token} {phrases : List LinePhrase}
    (isLast : last.word = (.endOfInput, []))
    (ends : ∀ token ∈ body, token.kind.IsEnd → token.word = (.endOfLine, []))
    (spells : List.Forall₂ Spells (tokenLinesFrom line (body ++ [last])) phrases) :
    (line ++ (body ++ [last])).map Token.word = sourceWords phrases := by
  have isEnd : last.kind.IsEnd := .inr (congrArg Prod.fst isLast)
  induction body generalizing line phrases with
  | nil =>
    rw [List.nil_append, tokenLinesFrom_end isEnd] at spells
    obtain ⟨phrase, others, spelt, none, rfl⟩ := List.forall₂_cons_left_iff.mp spells
    rw [List.forall₂_nil_left_iff.mp none, sourceWords_singleton, List.nil_append, List.map_append,
      spelt.front, List.map_singleton, isLast]
  | cons token rest ih =>
    obtain ⟨first, others⟩ := List.forall_mem_cons.mp ends
    by_cases atEnd : token.kind.IsEnd
    · rw [List.cons_append, tokenLinesFrom_end atEnd] at spells
      obtain ⟨phrase, phrases, spelt, more, rfl⟩ := List.forall₂_cons_left_iff.mp spells
      have isRest := ih others more
      cases phrases with
      | nil => exact absurd (List.forall₂_nil_right_iff.mp more) (tokenLinesFrom_ne_nil isEnd _ _)
      | cons next phrases =>
        rw [sourceWords_cons, ← isRest, List.map_append, spelt.front, List.cons_append,
          List.map_cons, first atEnd, List.nil_append]
    · have inside : ¬ (token.kind = .endOfLine ∨ token.kind = .endOfInput) := atEnd
      rw [List.cons_append, tokenLinesFrom, if_neg inside] at spells
      have isAll := ih others spells
      rwa [List.append_assoc] at isAll

/-- The end of the input is the last token of a source, and no other one. -/
theorem exists_tokens_eq (source : Text) : ∃ body last, tokens source = body ++ [last] ∧
    last.word = (.endOfInput, []) ∧
    ∀ token ∈ body, token.kind.IsEnd → token.word = (.endOfLine, []) := by
  refine ⟨_, _, rfl, rfl, fun token member isEnd => ?_⟩
  obtain ⟨lexeme, -, isToken⟩ := List.mem_filterMap.mp member
  unfold Lexeme.token? at isToken
  dsimp only at isToken
  unfold TokenKind.IsEnd at isEnd
  split at isToken
  case h_3 sort =>
    cases isToken
    rfl
  all_goals grind

theorem filled_of_mem_tokens {source : Text} :
    ∀ token ∈ tokens source, token.kind = .identifier → token.text ≠ [] := by
  intro token member isWord none
  have word := lexed_of_mem_tokens token member isWord
  rw [none] at word
  cases word

/-! ### Linking -/

theorem Draft.resolve_eq_ok_iff {draft : Draft} {lines : List LinePhrase}
    (describes : draft.outline.Describes lines) {use : LabelUse} {address : ℕ} :
    draft.resolve use = .ok address ↔
      use.label ∈ declaredLabels lines ∧ labelAddress lines use.label = address := by
  have lookup : draft.address? use.label = draft.outline.labels.lookup use.label := rfl
  unfold Draft.resolve
  by_cases declared : use.label ∈ declaredLabels lines
  · rw [lookup, describes.addresses _ declared]
    simp [declared, Except.pure, pure]
  · rw [lookup, describes.lookup_eq_none declared]
    simp [declared]

theorem Draft.exists_linkJumps_iff {draft : Draft} {jumps : List (ℕ × LabelUse)}
    {code : Array (Instruction ℕ)} :
    (∃ linked, draft.linkJumps jumps code = .ok linked) ↔
      ∀ jump ∈ jumps, ∃ address, draft.resolve jump.2 = .ok address := by
  induction jumps generalizing code with
  | nil => simp [Draft.linkJumps, pure, Except.pure]
  | cons jump rest ih =>
    obtain ⟨pc, use⟩ := jump
    rw [List.forall_mem_cons, Draft.linkJumps]
    simp only [bind_eq_ok_iff]
    rw [exists_comm]
    simp only [exists_and_left, ih, exists_and_right]

theorem exists_forall₂_iff {Source Target : Type} {relates : Source → Target → Prop}
    {sources : List Source} :
    (∃ targets, List.Forall₂ relates sources targets) ↔
      ∀ source ∈ sources, ∃ target, relates source target := by
  induction sources with
  | nil => simp
  | cons source rest ih => simp [List.forall₂_cons_left_iff, ← ih]

theorem Draft.exists_linkFunctions_iff {draft : Draft} :
    (∃ items, draft.linkFunctions = .ok items) ↔
      ∀ function ∈ draft.functions.toList, ∃ address, draft.resolve function.2 = .ok address := by
  have onto : Function.Surjective (Array.toList : Array Declaration → List Declaration) :=
    fun list => ⟨list.toArray, rfl⟩
  simp only [Draft.linkFunctions_eq_ok_iff]
  rw [← onto.exists, exists_forall₂_iff]
  simp

/-- The label of a directive is resolved if it is declared, and a missing one stands for something
else. -/
theorem Draft.resolveOr_eq_ok_iff {draft : Draft} {lines : List LinePhrase}
    (describes : draft.outline.Describes lines) {use : Option LabelUse} {usual address : ℕ} :
    draft.resolveOr use usual = .ok address ↔
      (∀ label ∈ use.map LabelUse.label, label ∈ declaredLabels lines) ∧
        ((use.map LabelUse.label).map (labelAddress lines)).getD usual = address := by
  cases use with
  | none => simp [Draft.resolveOr, pure, Except.pure]
  | some use =>
    rw [Draft.resolveOr, Draft.resolve_eq_ok_iff describes]
    simp

/-- The lines of a draft are linked just if they are `Coherent`: if they declare the labels they
use, and do not start behind their end. -/
theorem Draft.exists_link_iff {draft : Draft} {lines : List LinePhrase}
    (same : draft.outline = outlineOf lines) (declares : Declares lines) :
    (∃ program, draft.link = .ok program) ↔ Coherent lines := by
  have describes : draft.outline.Describes lines := same ▸ describes_outlineOf lines
  have resolves (use : LabelUse) :
      (∃ address, draft.resolve use = .ok address) ↔ use.label ∈ declaredLabels lines := by
    simp [Draft.resolve_eq_ok_iff describes]
  have jumps : (∃ code, draft.linkJumps draft.jumps draft.code = .ok code) ↔
      ∀ label ∈ targetLabels lines, label ∈ declaredLabels lines := by
    rw [Draft.exists_linkJumps_iff, ← describes.targets]
    exact (forall₂_congr fun (jump : ℕ × LabelUse) _ =>
      resolves jump.2).trans List.forall_mem_map.symm
  have functions : (∃ items, draft.linkFunctions = .ok items) ↔
      ∀ label ∈ entryLabels lines, label ∈ declaredLabels lines := by
    rw [Draft.exists_linkFunctions_iff, ← describes.entries, Draft.outline, List.map_map]
    exact (forall₂_congr fun (function : Declaration × LabelUse) _ =>
      resolves function.2).trans List.forall_mem_map.symm
  have start (address : ℕ) : draft.resolveOr draft.entry 0 = .ok address ↔
      (∀ label ∈ startLabel? lines, label ∈ declaredLabels lines) ∧
        startAddress lines = address := by
    rw [Draft.resolveOr_eq_ok_iff describes, startAddress, ← describes.entry]
    rfl
  have stop (address : ℕ) : draft.resolveOr draft.stop draft.code.size = .ok address ↔
      (∀ label ∈ stopLabel? lines, label ∈ declaredLabels lines) ∧
        stopAddress lines = address := by
    rw [Draft.resolveOr_eq_ok_iff describes, stopAddress, ← describes.stop, ← describes.size]
    rfl
  constructor
  · rintro ⟨program, links⟩
    obtain ⟨_, _, linked, placed, first, last, ordered, -⟩ := Draft.link_eq_ok_iff.mp links
    obtain ⟨startDeclared, rfl⟩ := (start _).mp first
    obtain ⟨stopDeclared, rfl⟩ := (stop _).mp last
    exact ⟨declares.labels, declares.functions, jumps.mp ⟨_, linked⟩,
      functions.mp ⟨_, placed⟩, startDeclared, stopDeclared, ordered⟩
  · intro coherent
    obtain ⟨code, linked⟩ := jumps.mpr coherent.targets
    obtain ⟨items, placed⟩ := functions.mpr coherent.entries
    exact ⟨⟨code, items, Int64.ofNat (startAddress lines), Int64.ofNat (stopAddress lines)⟩,
      Draft.link_eq_ok_iff.mpr ⟨_, _, linked, placed, (start _).mpr ⟨coherent.start, rfl⟩,
        (stop _).mpr ⟨coherent.stop, rfl⟩, coherent.ordered, rfl, rfl⟩⟩

theorem exists_assemble_iff {source : Text} :
    (∃ program, assemble source = .ok program) ↔ ∃ draft,
      readLines {} (tokenLinesFrom [] (tokens source)) = .ok draft ∧
        ∃ program, draft.link = .ok program := by
  simp only [assemble_eq_ok_iff, ← exists_and_left]
  exact exists_comm

/-- An empty line, which is spelt like no lines at all, is a program. -/
theorem coherent_empty : Coherent [{}] where
  labels := List.nodup_nil
  functions before line after split phrase isFunction := by
    cases before with
    | nil =>
      cases split
      cases isFunction
    | cons first others => simp at split
  targets := List.forall_mem_nil _
  entries := List.forall_mem_nil _
  start _ none := by cases none
  stop _ none := by cases none
  ordered := Nat.le_refl _

/-- The assembler accepts exactly the sources whose words are the `sourceWords` of lines that are
`Coherent`, so that they go together as a program. -/
theorem assemble_accepts_iff (source : Text) :
    (∃ program, assemble source = .ok program) ↔
      ∃ lines, (tokens source).map Token.word = sourceWords lines ∧ Coherent lines := by
  rw [exists_assemble_iff]
  constructor
  · rintro ⟨draft, read, linked⟩
    have areLines : ∀ found ∈ tokenLinesFrom [] (tokens source), IsLine found :=
      fun found member => isLine_of_mem_tokenLinesFrom (List.forall_mem_nil _) member
    have filled : ∀ found ∈ tokenLinesFrom [] (tokens source), ∀ token ∈ found,
        token.kind = .identifier → token.text ≠ [] := fun found member token among =>
      filled_of_mem_tokens token (mem_of_mem_tokenLinesFrom found member token among)
    obtain ⟨lines, spells, declares, same⟩ :=
      exists_phrases areLines filled rfl declares_nil read
    obtain ⟨body, last, isTokens, isLast, ends⟩ := exists_tokens_eq source
    rw [isTokens] at spells ⊢
    exact ⟨lines, sourceWords_of_spells isLast ends spells,
      (Draft.exists_link_iff same declares).mp linked⟩
  · rintro ⟨lines, isWords, coherent⟩
    obtain ⟨phrase, others, isWords, coherent⟩ : ∃ phrase others,
        (tokens source).map Token.word = sourceWords (phrase :: others) ∧
          Coherent (phrase :: others) := by
      cases lines with
      | nil => exact ⟨{}, [], isWords, coherent_empty⟩
      | cons phrase others => exact ⟨phrase, others, isWords, coherent⟩
    have declares : Declares ([] ++ phrase :: others) := ⟨coherent.labels, coherent.functions⟩
    obtain ⟨draft, read, follows⟩ :=
      exists_readLines (spells_of_sourceWords isWords) Draft.follows_empty declares
    exact ⟨draft, read, (Draft.exists_link_iff follows.outline declares).mpr coherent⟩

-- two lines, of which the first has a label and the second is a directive
example : (tokens "again: jmp @again\n.end again").map Token.word =
    sourceWords [⟨some "again", some (.instruction .jmp (by decide) (.target "again"))⟩,
      ⟨none, some (.stop "again")⟩] := by cbv

end ScriptEngine.Assembly
