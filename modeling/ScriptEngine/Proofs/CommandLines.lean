/-
This file is about what a command line says and what comes of it. Reading it needs no state: from
left to right it falls into names with the words for their parameters behind them, and each name is
looked up among the commands of the table and those that the commands in front of it have brought.
Running it makes the calls that have been read one after another, each from the state that the one
in front of it has left, up to the first that answers. An answer that all went well ends a line too,
though nothing has failed then.
-/

import Mathlib
import ScriptEngine.Command

namespace ScriptEngine

/-! ### Arguments -/

namespace Parameter

/-- A sort that words are read as. -/
def IsScalar : Parameter → Prop
  | .optional _ | .unsupported _ => False
  | _ => True

/-- A sort that words are read as, which may be left out. -/
def IsSupported : Parameter → Prop
  | .optional inner => inner.IsScalar
  | parameter => parameter.IsScalar

/-- Words give arguments, one for each parameter; behind the last word there is a zero for each
parameter that may be left out. -/
inductive Taken : List Parameter → List Text → List Argument → Prop
  | none {words : List Text} : Taken [] words []
  | given {parameter : Parameter} {parameters : List Parameter} {word : Text} {words : List Text}
      {argument : Argument} {arguments : List Argument}
      (read : parameter.ofWord word = .ok argument) (others : Taken parameters words arguments) :
      Taken (parameter :: parameters) (word :: words) (argument :: arguments)
  | missing {inner : Parameter} {parameters : List Parameter} {arguments : List Argument}
      (others : Taken parameters [] arguments) :
      Taken (.optional inner :: parameters) [] (inner.zero :: arguments)

/-- The first word that gives no argument, or the first parameter without a word that may not be
left out, is what is wrong. -/
inductive Refused : List Parameter → List Text → ArgumentError → Prop
  | unread {parameter : Parameter} {parameters : List Parameter} {word : Text} {words : List Text}
      {error : ArgumentError} (unread : parameter.ofWord word = .error error) :
      Refused (parameter :: parameters) (word :: words) error
  | missing {parameter : Parameter} {parameters : List Parameter}
      (needed : ∀ inner, parameter ≠ .optional inner) :
      Refused (parameter :: parameters) [] .missing
  | behind {parameter : Parameter} {parameters : List Parameter} {words : List Text}
      {argument : Argument} {error : ArgumentError}
      (first : Taken [parameter] words [argument]) (others : Refused parameters words.tail error) :
      Refused (parameter :: parameters) words error

theorem argument_eq_ok {parameter : Parameter} {words : List Text} {argument : Argument}
    (read : parameter.argument words.head? = .ok argument) :
    Taken [parameter] words [argument] := by
  cases words with
  | cons word rest => exact .given read .none
  | nil =>
    cases parameter with
    | optional inner =>
      cases read
      exact .missing .none
    | bool | integer | natural | number | text | unsupported => cases read

theorem Taken.argument {parameter : Parameter} {words : List Text} {argument : Argument}
    (taken : Taken [parameter] words [argument]) :
    parameter.argument words.head? = .ok argument := by
  cases taken with
  | given read _ => exact read
  | missing _ => rfl

theorem Taken.cons {parameter : Parameter} {parameters : List Parameter} {words : List Text}
    {argument : Argument} {arguments : List Argument} (first : Taken [parameter] words [argument])
    (others : Taken parameters words.tail arguments) :
    Taken (parameter :: parameters) words (argument :: arguments) := by
  cases first with
  | given read _ => exact .given read others
  | missing _ => exact .missing others

/-- What `arguments` reads for parameters is what the words give, `Taken`, or what is wrong with
them, `Refused`. -/
theorem arguments_spec (parameters : List Parameter) (words : List Text) :
    match Parameter.arguments parameters words with
    | .ok arguments => Taken parameters words arguments
    | .error error => Refused parameters words error := by
  induction parameters generalizing words with
  | nil => exact .none
  | cons parameter parameters ih =>
    specialize ih words.tail
    rw [Parameter.arguments]
    cases read : parameter.argument words.head? with
    | error error =>
      cases words with
      | cons word rest => exact .unread read
      | nil =>
        cases parameter with
        | optional inner => cases read
        | bool | integer | natural | number | text | unsupported =>
          cases read
          exact .missing fun _ => Parameter.noConfusion
    | ok argument =>
      have first := argument_eq_ok read
      cases others : Parameter.arguments parameters words.tail with
      | error error =>
        rw [others] at ih
        exact .behind first ih
      | ok arguments =>
        rw [others] at ih
        exact first.cons ih

theorem Taken.arguments_cons {parameter : Parameter} {words : List Text} {argument : Argument}
    (first : Taken [parameter] words [argument]) (parameters : List Parameter) :
    Parameter.arguments (parameter :: parameters) words =
      (Parameter.arguments parameters words.tail).map (argument :: ·) := by
  rw [Parameter.arguments, first.argument]
  rfl

theorem Taken.arguments {parameters : List Parameter} {words : List Text}
    {arguments : List Argument} (taken : Taken parameters words arguments) :
    Parameter.arguments parameters words = .ok arguments := by
  induction taken with
  | none => rfl
  | @given _ _ word words _ _ read others ih =>
    have first : Taken _ (word :: words) _ := .given read .none
    rw [first.arguments_cons, List.tail_cons, ih]
    rfl
  | @missing inner _ _ others ih =>
    have first : Taken [.optional inner] [] _ := .missing .none
    rw [first.arguments_cons, List.tail_nil, ih]
    rfl

theorem Refused.arguments {parameters : List Parameter} {words : List Text}
    {error : ArgumentError} (refused : Refused parameters words error) :
    Parameter.arguments parameters words = .error error := by
  induction refused with
  | @unread parameter parameters word words error unread =>
    have first : parameter.argument (word :: words).head? = .error error := unread
    rw [Parameter.arguments, first]
    rfl
  | @missing parameter parameters needed =>
    have first : parameter.argument ([] : List Text).head? = .error .missing := by
      cases parameter with
      | optional inner => exact absurd rfl (needed inner)
      | bool | integer | natural | number | text | unsupported => rfl
    rw [Parameter.arguments, first]
    rfl
  | behind first others ih =>
    rw [first.arguments_cons, ih]
    rfl

/-- No word of a sort that words are read as is refused for nesting. -/
theorem IsScalar.ofWord_ne {parameter : Parameter} (isScalar : parameter.IsScalar) (word : Text) :
    parameter.ofWord word ≠ .error .nestedOptional := by
  cases parameter with
  | optional | unsupported => exact isScalar.elim
  | bool | text => exact fun same => by cases same
  | integer bits =>
    rw [ofWord]
    cases integerOf word <;> exact fun same => by cases same
  | natural bits =>
    rw [ofWord]
    cases naturalOf word <;> exact fun same => by cases same
  | number format =>
    rw [ofWord]
    cases Number.Literal.read word <;> exact fun same => by cases same

/-- An argument that may be left out is read as one that may not. -/
theorem IsScalar.ofWord_optional {inner : Parameter} (isScalar : inner.IsScalar) (word : Text) :
    (Parameter.optional inner).ofWord word = inner.ofWord word := by
  rw [ofWord]
  cases inner with
  | optional | unsupported => exact isScalar.elim
  | bool | integer | natural | number | text => exact bind_pure _

theorem IsSupported.ofWord_ne {parameter : Parameter} (isSupported : parameter.IsSupported)
    (word : Text) : parameter.ofWord word ≠ .error .nestedOptional := by
  cases parameter with
  | optional inner =>
    rw [IsScalar.ofWord_optional isSupported]
    exact IsScalar.ofWord_ne isSupported word
  | bool | integer | natural | number | text | unsupported =>
    refine IsScalar.ofWord_ne ?_ word
    exact isSupported

theorem Refused.ne_nestedOptional {parameters : List Parameter} {words : List Text}
    {error : ArgumentError} (refused : Refused parameters words error)
    (supported : ∀ parameter ∈ parameters, parameter.IsSupported) : error ≠ .nestedOptional := by
  induction refused with
  | unread unread =>
    rintro rfl
    exact (supported _ List.mem_cons_self).ofWord_ne _ unread
  | missing => exact ArgumentError.noConfusion
  | behind _ _ ih =>
    exact ih fun parameter member => supported parameter (List.mem_cons_of_mem _ member)

end Parameter

/-! ### Reading a command line -/

namespace CommandTable

variable {State : Type}

/-- An action with its arguments. -/
structure Call (State : Type) where
  action : CommandAction State
  arguments : List Argument

/-- A table of commands: each name has one, all parameters are `Parameter.IsSupported`, and the same
holds of the commands that they bring. -/
inductive Proper : CommandTable State → Prop
  | intro {table : CommandTable State} (names : (table.map Prod.fst).Nodup)
    (given : ∀ entry ∈ table, entry.2 ≠ none)
    (supported : ∀ name command action, (name, some command) ∈ table →
      command.action = some action → ∀ parameter ∈ action.parameters, parameter.IsSupported)
    (subs : ∀ name command, (name, some command) ∈ table → Proper command.subs) : Proper table

/-- The words behind the name of a command give what it is called with, if it acts. -/
inductive Asks (command : Command State) (words : List Text) : List (Call State) → Prop
  | nothing (idle : command.action = none) : Asks command words []
  | call {action : CommandAction State} {arguments : List Argument}
    (acts : command.action = some action)
    (taken : Parameter.Taken action.parameters words arguments) :
    Asks command words [⟨action, arguments⟩]

/-- The calls that a command line asks for, in their order, and what is wrong with it, if anything
is, when all of them go well. A name is looked up in the table and among the commands that the
commands in front of it have brought. -/
inductive Reads : CommandTable State → List Text → List (Call State) → Option CommandError → Prop
  | whole {table : CommandTable State} : Reads table [] [] none
  | unknown {table : CommandTable State} {word : Text} {rest : List Text}
    (absent : table.lookup (Text.trim word) = none) :
    Reads table (word :: rest) [] (some (.unknown (Text.trim word)))
  | refused {table : CommandTable State} {word : Text} {rest : List Text}
    {command : Command State} {action : CommandAction State} {error : ArgumentError}
    (found : table.lookup (Text.trim word) = some (some command))
    (acts : command.action = some action)
    (refused : Parameter.Refused action.parameters rest error) :
    Reads table (word :: rest) [] (some (.argument error))
  | duplicated {table : CommandTable State} {word : Text} {rest : List Text}
    {command : Command State} {calls : List (Call State)} {sub : Text × Option (Command State)}
    (found : table.lookup (Text.trim word) = some (some command))
    (asks : Asks command rest calls)
    (taken : command.subs.find? (fun sub => (table.lookup sub.1).isSome) = some sub) :
    Reads table (word :: rest) calls (some (.duplicatedSub (Text.trim word) sub.1))
  | next {table : CommandTable State} {word : Text} {rest : List Text}
    {command : Command State} {calls following : List (Call State)} {stop : Option CommandError}
    (found : table.lookup (Text.trim word) = some (some command))
    (asks : Asks command rest calls)
    (fresh : command.subs.find? (fun sub => (table.lookup sub.1).isSome) = none)
    (later : Reads (table ++ command.subs) (rest.drop command.arity) following stop) :
    Reads table (word :: rest) (calls ++ following) stop

variable {table : CommandTable State} {command : Command State} {words : List Text}
  {calls others : List (Call State)} {stop ending : Option CommandError}

theorem Asks.unique (asks : Asks command words calls) (again : Asks command words others) :
    others = calls := by
  cases asks with
  | nothing idle =>
    cases again with
    | nothing => rfl
    | call acts _ => rw [idle] at acts; cases acts
  | call acts taken =>
    cases again with
    | nothing idle => rw [acts] at idle; cases idle
    | call same also =>
      rw [acts] at same
      cases same
      have arguments := taken.arguments.symm.trans also.arguments
      cases arguments
      rfl

theorem Asks.not_refused {action : CommandAction State} {error : ArgumentError}
    (asks : Asks command words calls) (acts : command.action = some action) :
    ¬ Parameter.Refused action.parameters words error := by
  intro refused
  cases asks with
  | nothing idle => rw [acts] at idle; cases idle
  | call same taken =>
    rw [acts] at same
    cases same
    have arguments := taken.arguments.symm.trans refused.arguments
    cases arguments

/-- A command line `Reads` in one way only. -/
theorem Reads.unique (reads : Reads table words calls stop)
    (again : Reads table words others ending) : others = calls ∧ ending = stop := by
  induction reads generalizing others ending with
  | whole =>
    cases again
    exact ⟨rfl, rfl⟩
  | unknown absent =>
    cases again with
    | unknown => exact ⟨rfl, rfl⟩
    | refused found | duplicated found | next found => rw [absent] at found; cases found
  | refused found acts refused =>
    cases again with
    | unknown absent => rw [found] at absent; cases absent
    | refused same also again =>
      obtain rfl := Option.some.inj (Option.some.inj (found.symm.trans same))
      obtain rfl := Option.some.inj (acts.symm.trans also)
      have errors := refused.arguments.symm.trans again.arguments
      cases errors
      exact ⟨rfl, rfl⟩
    | duplicated same asks | next same asks =>
      obtain rfl := Option.some.inj (Option.some.inj (found.symm.trans same))
      exact absurd refused (asks.not_refused acts)
  | duplicated found asks taken =>
    cases again with
    | unknown absent => rw [found] at absent; cases absent
    | refused same acts refused =>
      obtain rfl := Option.some.inj (Option.some.inj (found.symm.trans same))
      exact absurd refused (asks.not_refused acts)
    | duplicated same also again =>
      obtain rfl := Option.some.inj (Option.some.inj (found.symm.trans same))
      obtain rfl := Option.some.inj (taken.symm.trans again)
      exact ⟨asks.unique also, rfl⟩
    | next same also fresh =>
      obtain rfl := Option.some.inj (Option.some.inj (found.symm.trans same))
      rw [taken] at fresh
      cases fresh
  | next found asks fresh later ih =>
    cases again with
    | unknown absent => rw [found] at absent; cases absent
    | refused same acts refused =>
      obtain rfl := Option.some.inj (Option.some.inj (found.symm.trans same))
      exact absurd refused (asks.not_refused acts)
    | duplicated same also taken =>
      obtain rfl := Option.some.inj (Option.some.inj (found.symm.trans same))
      rw [taken] at fresh
      cases fresh
    | next same also fresh behind =>
      obtain rfl := Option.some.inj (Option.some.inj (found.symm.trans same))
      obtain ⟨rfl, rfl⟩ := ih behind
      exact ⟨by rw [asks.unique also], rfl⟩

/-! ### Bringing commands -/

theorem extend_append {name : Text} {before rest : List (Text × Option (Command State))}
    (names : (before.map Prod.fst).Nodup)
    (fresh : ∀ sub ∈ before, table.lookup sub.1 = none) :
    extend name (before ++ rest) table = extend name rest (table ++ before) := by
  induction before generalizing table with
  | nil => rw [List.nil_append, List.append_nil]
  | cons sub others ih =>
    obtain ⟨first, later⟩ := List.nodup_cons.mp names
    obtain ⟨absent, behind⟩ := List.forall_mem_cons.mp fresh
    have still : ∀ other ∈ others, (table ++ [sub]).lookup other.1 = none := by
      intro other member
      have differs : other.1 ≠ sub.1 := fun same => first (same ▸ List.mem_map_of_mem member)
      rw [List.lookup_append, behind other member, Option.none_or, List.lookup_cons,
        beq_false_of_ne differs, List.lookup_nil]
    have step : extend name (sub :: (others ++ rest)) table =
        extend name (others ++ rest) (table ++ [sub]) :=
      if_neg (by rw [absent]; exact Bool.false_ne_true)
    rw [List.cons_append, step, ih later still, List.append_assoc, List.singleton_append]

theorem lookup_of_fresh {subs : List (Text × Option (Command State))}
    (fresh : subs.find? (fun sub => (table.lookup sub.1).isSome) = none) :
    ∀ sub ∈ subs, table.lookup sub.1 = none :=
  fun sub member => Option.not_isSome_iff_eq_none.mp (List.find?_eq_none.mp fresh sub member)

theorem extend_fresh (name : Text) {subs : List (Text × Option (Command State))}
    (names : (subs.map Prod.fst).Nodup)
    (fresh : subs.find? (fun sub => (table.lookup sub.1).isSome) = none) :
    extend name subs table = .ok (table ++ subs) := by
  have appended : extend name (subs ++ []) table = extend name [] (table ++ subs) :=
    extend_append names (lookup_of_fresh fresh)
  rwa [List.append_nil] at appended

theorem extend_taken (name : Text) {subs : List (Text × Option (Command State))}
    {sub : Text × Option (Command State)} (names : (subs.map Prod.fst).Nodup)
    (taken : subs.find? (fun sub => (table.lookup sub.1).isSome) = some sub) :
    extend name subs table = .error (.duplicatedSub name sub.1) := by
  obtain ⟨present, before, after, rfl, fresh⟩ := List.find?_eq_some_iff_append.mp taken
  have absent : ∀ sub ∈ before, table.lookup sub.1 = none := fun sub member =>
    Option.not_isSome_iff_eq_none.mp (Bool.not_iff_not.mp (fresh sub member))
  rw [List.map_append] at names
  rw [extend_append names.of_append_left absent]
  refine if_pos ?_
  rw [List.lookup_append, Option.isSome_or, present, Bool.true_or]

theorem Proper.append {subs : CommandTable State} (proper : Proper table) (others : Proper subs)
    (fresh : subs.find? (fun sub => (table.lookup sub.1).isSome) = none) :
    Proper (table ++ subs) := by
  obtain ⟨names, given, supported, within⟩ := proper
  obtain ⟨otherNames, otherGiven, otherSupported, otherWithin⟩ := others
  refine ⟨?_, ?_, ?_, ?_⟩
  · rw [List.map_append]
    refine names.append otherNames fun name member also => ?_
    obtain ⟨sub, isSub, rfl⟩ := List.mem_map.mp also
    obtain ⟨entry, isEntry, same⟩ := List.mem_map.mp member
    have differs := List.lookup_eq_none_iff.mp (lookup_of_fresh fresh sub isSub) entry isEntry
    exact bne_iff_ne.mp differs same.symm
  · exact List.forall_mem_append.mpr ⟨given, otherGiven⟩
  · intro name command action member
    rcases List.mem_append.mp member with here | there
    · exact supported name command action here
    · exact otherSupported name command action there
  · intro name command member
    rcases List.mem_append.mp member with here | there
    · exact within name command here
    · exact otherWithin name command there

theorem mem_of_lookup {name : Text} {entry : Option (Command State)}
    (found : table.lookup name = some entry) : (name, entry) ∈ table := by
  obtain ⟨before, after, rfl, -⟩ := List.lookup_eq_some_iff.mp found
  exact List.mem_append_right _ List.mem_cons_self

/-! ### Running a command line -/

/-- What the answer of an action makes of a command line. -/
def endingOf (reply : Reply) : Ending :=
  match reply with
  | .silent => .done
  | .success => .failed .success
  | .failure message => .failed (.failed message)
  | .quit => .quit

/-- Makes a call. What it answers ends a sequence of calls, unless they go on behind such an
answer. -/
def Call.make (goesOn : List Reply) (state : State) (call : Call State) :
    Except (State × Reply) State :=
  let answer := call.action.run call.arguments state
  if answer.2 ∈ goesOn then .ok answer.1 else .error answer

/-- What calls that were made one after another with `Call.make` come to, if the line is to stop
behind them. -/
def outcome (stop : Option CommandError) : Except (State × Reply) State → State × Ending
  | .ok final => (final, stop.elim .done .failed)
  | .error (final, reply) => (final, endingOf reply)

theorem perform_of_asks (asks : Asks command words calls) (state : State) :
    perform command words state =
      match calls.foldlM (Call.make [.silent]) state with
      | .ok final => (final, none)
      | .error (final, reply) => (final, some (endingOf reply)) := by
  unfold perform
  cases asks with
  | nothing idle => rw [idle]; rfl
  | @call action arguments acts taken =>
    rw [acts]
    dsimp only
    rw [taken.arguments]
    dsimp only
    rcases answer : action.run arguments state with ⟨final, reply⟩
    have made : Call.make [.silent] state ⟨action, arguments⟩ =
        if reply ∈ [Reply.silent] then .ok final else .error (final, reply) := by
      rw [Call.make, answer]
    rw [List.foldlM_cons, made]
    cases reply <;> rfl

/-- Running a command line makes the calls that it `Reads` as asking for. -/
theorem execute_of_reads (proper : Proper table) (reads : Reads table words calls stop)
    (state : State) :
    execute table words state = outcome stop (calls.foldlM (Call.make [.silent]) state) := by
  induction reads generalizing state with
  | whole => rw [execute]; rfl
  | unknown absent =>
    rw [execute, absent]
    rfl
  | refused found acts refused =>
    rw [execute, found]
    dsimp only
    rw [perform, acts]
    dsimp only
    rw [refused.arguments]
    rfl
  | @duplicated table word rest command calls sub found asks taken =>
    obtain ⟨_, _, _, subs⟩ := proper
    obtain ⟨names, _, _, _⟩ := subs _ _ (mem_of_lookup found)
    rw [execute, found]
    dsimp only
    rw [perform_of_asks asks]
    cases calls.foldlM (Call.make [.silent]) state with
    | error answer => rfl
    | ok final =>
      dsimp only
      rw [extend_taken _ names taken]
      rfl
  | @next table word rest command calls following stop found asks fresh later ih =>
    have others : Proper command.subs := by
      obtain ⟨_, _, _, subs⟩ := proper
      exact subs _ _ (mem_of_lookup found)
    obtain ⟨names, _, _, _⟩ := id others
    rw [execute, found]
    dsimp only
    rw [perform_of_asks asks, List.foldlM_append]
    cases calls.foldlM (Call.make [.silent]) state with
    | error answer => rfl
    | ok final =>
      dsimp only
      rw [extend_fresh _ names fresh]
      exact ih (proper.append others fresh) final

/-- With a `Proper` table each command line `Reads` in some way. -/
theorem Proper.exists_reads (proper : Proper table) (words : List Text) :
    ∃ calls stop, Reads table words calls stop := by
  induction count : words.length using Nat.strong_induction_on generalizing table words with
  | _ count ih =>
    subst count
    cases words with
    | nil => exact ⟨_, _, .whole⟩
    | cons word rest =>
      rcases found : table.lookup (Text.trim word) with _ | _ | command
      · exact ⟨_, _, .unknown found⟩
      · obtain ⟨_, given, _, _⟩ := proper
        exact absurd rfl (given _ (mem_of_lookup found))
      · have asked : (∃ calls, Asks command rest calls) ∨ ∃ action error,
            command.action = some action ∧ Parameter.Refused action.parameters rest error := by
          cases acts : command.action with
          | none => exact .inl ⟨_, .nothing acts⟩
          | some action =>
            have spec := Parameter.arguments_spec action.parameters rest
            split at spec
            · exact .inl ⟨_, .call acts spec⟩
            · exact .inr ⟨action, _, rfl, spec⟩
        rcases asked with ⟨calls, asks⟩ | ⟨action, error, acts, refused⟩
        · cases fresh : command.subs.find? fun sub => (table.lookup sub.1).isSome with
          | some sub => exact ⟨_, _, .duplicated found asks fresh⟩
          | none =>
            have others : Proper command.subs := by
              obtain ⟨_, _, _, subs⟩ := proper
              exact subs _ _ (mem_of_lookup found)
            have shorter : (rest.drop command.arity).length < (word :: rest).length := by
              rw [List.length_cons, List.length_drop]
              omega
            obtain ⟨following, stop, later⟩ :=
              ih _ shorter (proper.append others fresh) (rest.drop command.arity) rfl
            exact ⟨_, _, .next found asks fresh later⟩
        · exact ⟨_, _, .refused found acts refused⟩

/-! ### What goes wrong -/

/-- A command line has ended with a mistake that has no message. -/
def Ending.Panics (ending : Ending) : Prop :=
  ∃ error, ending = .failed error ∧ error.message? = none

/-- What is wrong with a command line that `Reads` has a message. -/
theorem Reads.message_ne_none (proper : Proper table) (reads : Reads table words calls stop)
    {error : CommandError} (stops : stop = some error) : error.message? ≠ none := by
  induction reads with
  | whole => cases stops
  | unknown => cases stops; exact Option.some_ne_none _
  | @refused _ _ _ _ _ wrong found acts refused =>
    cases stops
    obtain ⟨_, _, supported, _⟩ := proper
    have other := refused.ne_nestedOptional (supported _ _ _ (mem_of_lookup found) acts)
    cases wrong with
    | nestedOptional => exact absurd rfl other
    | missing | numeral | unsupported => exact Option.some_ne_none _
  | duplicated => cases stops; exact Option.some_ne_none _
  | next found asks fresh later ih =>
    obtain ⟨_, _, _, subs⟩ := id proper
    exact ih (proper.append (subs _ _ (mem_of_lookup found)) fresh) stops

/-- Calls that `Call.make` makes end with an answer that they do not go on behind. -/
theorem foldlM_make_error {goesOn : List Reply} {state final : State} {reply : Reply}
    (ends : calls.foldlM (Call.make goesOn) state = .error (final, reply)) : reply ∉ goesOn := by
  induction calls generalizing state with
  | nil => cases ends
  | cons call later ih =>
    rw [List.foldlM_cons, Call.make] at ends
    by_cases goes : (call.action.run call.arguments state).2 ∈ goesOn
    · rw [if_pos goes] at ends
      exact ih ends
    · rw [if_neg goes] at ends
      rwa [Except.error.inj ends] at goes

/-- Where calls do not end with an answer, those that go on behind it as well come to the same. -/
theorem foldlM_make_cons (answer : Reply) {goesOn : List Reply} {state : State}
    (other : ∀ final, calls.foldlM (Call.make goesOn) state ≠ .error (final, answer)) :
    calls.foldlM (Call.make (answer :: goesOn)) state =
      calls.foldlM (Call.make goesOn) state := by
  induction calls generalizing state with
  | nil => rfl
  | cons call later ih =>
    rw [List.foldlM_cons] at other
    rw [List.foldlM_cons, List.foldlM_cons]
    rcases answered : call.action.run call.arguments state with ⟨final, reply⟩
    have made (replies : List Reply) : Call.make replies state call =
        if reply ∈ replies then .ok final else .error (final, reply) := by
      rw [Call.make, answered]
    rw [made] at other
    rw [made, made]
    by_cases goes : reply ∈ goesOn
    · rw [if_pos goes] at other
      rw [if_pos goes, if_pos (List.mem_cons_of_mem _ goes)]
      exact ih other
    · rw [if_neg goes] at other
      have differs : reply ≠ answer := by
        rintro rfl
        exact other final rfl
      rw [if_neg goes, if_neg (List.not_mem_cons_of_ne_of_not_mem differs goes)]
      rfl

/-! ### Tables in memory -/

variable {memory : TableMemory State} {address : ℕ}

/-- `extendAt` leaves the other tables, and adds what is added to a copy. -/
theorem extendAt_spec (name : Text) (subs : List (Text × Option (Command State)))
    (present : address < memory.size) :
    (extendAt name address subs memory).1.size = memory.size ∧
      (∀ place ≠ address, (extendAt name address subs memory).1[place]? = memory[place]?) ∧
      match extend name subs (tableAt memory address) with
      | .error error => (extendAt name address subs memory).2 = some error
      | .ok extended => (extendAt name address subs memory).2 = none ∧
          tableAt (extendAt name address subs memory).1 address = extended := by
  induction subs generalizing memory with
  | nil => exact ⟨rfl, fun _ _ => rfl, rfl, rfl⟩
  | cons sub rest ih =>
    by_cases taken : ((tableAt memory address).lookup sub.1).isSome = true
    · rw [extendAt, extend, if_pos taken, if_pos taken]
      exact ⟨rfl, fun _ _ => rfl, rfl⟩
    · have still : address < (memory.setIfInBounds address
          (tableAt memory address ++ [sub])).size := by
        rwa [Array.size_setIfInBounds]
      obtain ⟨size, others, added⟩ := ih still
      have changed : tableAt (memory.setIfInBounds address (tableAt memory address ++ [sub]))
          address = tableAt memory address ++ [sub] := by
        rw [tableAt, Array.getD_eq_getD_getElem?, Array.getElem?_setIfInBounds_self_of_lt present,
          Option.getD_some]
      rw [changed] at added
      rw [extendAt, extend, if_neg taken, if_neg taken]
      refine ⟨size.trans Array.size_setIfInBounds, fun place other => ?_, added⟩
      rw [others place other, Array.getElem?_setIfInBounds_ne other.symm]

/-- `executeAt` leaves all tables in memory as they were. -/
theorem executeAt_spec (words : List Text) (state : State) (present : address < memory.size) :
    (∀ place < memory.size, (executeAt memory address words state).1[place]? = memory[place]?) ∧
      (executeAt memory address words state).2 = execute (tableAt memory address) words state := by
  induction count : words.length using Nat.strong_induction_on
    generalizing memory address words state with
  | _ count ih =>
    subst count
    cases words with
    | nil =>
      rw [executeAt, execute]
      exact ⟨fun _ _ => rfl, rfl⟩
    | cons word rest =>
      have shorter (command : Command State) :
          (rest.drop command.arity).length < (word :: rest).length := by
        rw [List.length_cons, List.length_drop]
        omega
      rw [executeAt, execute]
      split
      · exact ⟨fun _ _ => rfl, rfl⟩
      · exact ⟨fun _ _ => rfl, rfl⟩
      · case _ command found =>
        rcases perform command rest state with ⟨after, _ | ending⟩
        · dsimp only
          split
          · case isTrue none =>
            rw [List.isEmpty_iff.mp none]
            exact ih _ (shorter command) _ _ present rfl
          · have pushed : memory.size < (memory.push (tableAt memory address)).size := by
              rw [Array.size_push]
              exact Nat.lt_succ_self _
            obtain ⟨size, others, added⟩ := extendAt_spec (Text.trim word) command.subs pushed
            have copied : tableAt (memory.push (tableAt memory address)) memory.size =
                tableAt memory address := by
              rw [tableAt, Array.getD_eq_getD_getElem?, Array.getElem?_push_size, Option.getD_some]
            rw [copied] at added
            generalize extendAt (Text.trim word) memory.size command.subs
              (memory.push (tableAt memory address)) = extended at size others added ⊢
            obtain ⟨tables, problem⟩ := extended
            have kept : ∀ place < memory.size, tables[place]? = memory[place]? := by
              intro place within
              rw [others place within.ne, Array.getElem?_push_lt within,
                Array.getElem?_eq_getElem within]
            cases bigger : extend (Text.trim word) command.subs (tableAt memory address) with
            | error error =>
              rw [bigger] at added
              obtain rfl : problem = some error := added
              exact ⟨kept, rfl⟩
            | ok table =>
              rw [bigger] at added
              obtain ⟨rfl, rfl⟩ := added
              have here : memory.size < tables.size := by
                rw [size]
                exact pushed
              obtain ⟨same, result⟩ := ih _ (shorter command) _ after here rfl
              exact ⟨fun place within => (same place (within.trans here)).trans (kept place within),
                result⟩
        · exact ⟨fun _ _ => rfl, rfl⟩

/-! ### Command lines -/

theorem outcome_done_iff {goesOn : List Reply} {state : State} (silent : .silent ∈ goesOn) :
    (outcome stop (calls.foldlM (Call.make goesOn) state)).2 = .done ↔
      stop = none ∧ ∃ final, calls.foldlM (Call.make goesOn) state = .ok final := by
  cases made : calls.foldlM (Call.make goesOn) state with
  | ok final =>
    cases stop with
    | none => exact iff_of_true rfl ⟨rfl, final, rfl⟩
    | some error => exact iff_of_false Ending.noConfusion fun both => by cases both.1
  | error answer =>
    obtain ⟨final, reply⟩ := answer
    have answers := foldlM_make_error made
    refine iff_of_false ?_ fun both => by obtain ⟨_, _, same⟩ := both; cases same
    cases reply with
    | silent => exact absurd silent answers
    | success | failure | quit => exact Ending.noConfusion

theorem outcome_panics_iff (calls : List (Call State)) (state : State)
    (messages : ∀ error, stop = some error → error.message? ≠ none) :
    Ending.Panics (outcome stop (calls.foldlM (Call.make [.silent]) state)).2 ↔
      ∃ final, calls.foldlM (Call.make [.silent]) state = .error (final, .success) := by
  cases made : calls.foldlM (Call.make [.silent]) state with
  | ok final =>
    refine iff_of_false ?_ fun answered => by obtain ⟨_, same⟩ := answered; cases same
    rintro ⟨error, same, none⟩
    cases stop with
    | none => cases same
    | some _ =>
      cases same
      exact messages error rfl none
  | error answer =>
    obtain ⟨final, reply⟩ := answer
    have answers := foldlM_make_error made
    cases reply with
    | silent => exact absurd List.mem_cons_self answers
    | success => exact iff_of_true ⟨.success, rfl, rfl⟩ ⟨final, rfl⟩
    | failure message =>
      refine iff_of_false ?_ fun answered => by obtain ⟨_, same⟩ := answered; cases same
      rintro ⟨error, same, none⟩
      cases same
      cases none
    | quit =>
      refine iff_of_false ?_ fun answered => by obtain ⟨_, same⟩ := answered; cases same
      rintro ⟨error, same, -⟩
      cases same

/-- A command line is read in one way, `Reads`. Running it on a table in memory with `executeAt`
leaves all tables as they were, and makes the calls that have been read one after another, up to the
first that answers; it is done just when the whole line has been read and no call has answered.
Where an action answers that all went well, and only there, the run `Ending.Panics`. In all other
cases it comes to what the calls come to if such an answer counts for nothing. -/
theorem executeAt_leftToRight (proper : Proper table) (words : List Text) :
    ∃ calls stop, Reads table words calls stop ∧
      (∀ others ending, Reads table words others ending → others = calls ∧ ending = stop) ∧
      ∀ (memory : TableMemory State) (address : ℕ) (state : State),
        memory[address]? = some table →
        (∀ place < memory.size,
          (executeAt memory address words state).1[place]? = memory[place]?) ∧
        (executeAt memory address words state).2 = execute table words state ∧
        execute table words state =
          outcome stop (calls.foldlM (Call.make [.silent]) state) ∧
        ((execute table words state).2 = .done ↔
          stop = none ∧ ∃ final, calls.foldlM (Call.make [.silent]) state = .ok final) ∧
        (Ending.Panics (execute table words state).2 ↔
          ∃ final, calls.foldlM (Call.make [.silent]) state = .error (final, .success)) ∧
        (¬ Ending.Panics (execute table words state).2 → execute table words state =
          outcome stop (calls.foldlM (Call.make [.success, .silent]) state)) := by
  obtain ⟨calls, stop, reads⟩ := proper.exists_reads words
  refine ⟨calls, stop, reads, fun others ending again => reads.unique again, ?_⟩
  intro memory address state there
  obtain ⟨present, isTable⟩ := Array.getElem?_eq_some_iff.mp there
  have holds : tableAt memory address = table := by
    rw [tableAt, Array.getD_eq_getD_getElem?, there, Option.getD_some]
  obtain ⟨kept, same⟩ := executeAt_spec words state present
  rw [holds] at same
  have panics := outcome_panics_iff calls state fun error => reads.message_ne_none proper
  rw [execute_of_reads proper reads state]
  refine ⟨kept, same.trans (execute_of_reads proper reads state), rfl,
    outcome_done_iff List.mem_cons_self, panics, fun well => ?_⟩
  rw [foldlM_make_cons .success fun final failed => well (panics.mpr ⟨final, failed⟩)]

/-- A command that keeps what it is called with. -/
def recording (parameters : List Parameter) (reply : Reply) : Command (List Argument) where
  action := some { parameters, run := fun arguments seen => (seen ++ arguments, reply) }

/-- A command that brings two others, and one that fails. -/
def sampleTable : CommandTable (List Argument) :=
  [("tools", some { subs := [("say", some (recording [.text] .silent)),
      ("count", some (recording [.text, .optional (.integer 64)] .silent))] }),
    ("fail", some (recording [] (.failure "no")))]

theorem Proper.nil : Proper ([] : CommandTable State) :=
  ⟨List.nodup_nil, List.forall_mem_nil _, fun _ _ _ member => absurd member List.not_mem_nil,
    fun _ _ member => absurd member List.not_mem_nil⟩

/-- Another command with a new name keeps a table `Proper`. -/
theorem Proper.cons {name : Text} (proper : Proper table) (fresh : name ∉ table.map Prod.fst)
    (supported : ∀ action, command.action = some action →
      ∀ parameter ∈ action.parameters, parameter.IsSupported)
    (subs : Proper command.subs) : Proper ((name, some command) :: table) := by
  obtain ⟨names, given, others, within⟩ := proper
  refine ⟨List.nodup_cons.mpr ⟨fresh, names⟩,
    List.forall_mem_cons.mpr ⟨Option.some_ne_none _, given⟩, ?_, ?_⟩
  · intro other known action member acts
    rcases List.mem_cons.mp member with same | later
    · cases same
      exact supported action acts
    · exact others other known action later acts
  · intro other known member
    rcases List.mem_cons.mp member with same | later
    · cases same
      exact subs
    · exact within other known later

theorem Proper.recording {name : Text} {parameters : List Parameter} {reply : Reply}
    {table : CommandTable (List Argument)} (proper : Proper table)
    (fresh : name ∉ table.map Prod.fst)
    (supported : ∀ parameter ∈ parameters, parameter.IsSupported) :
    Proper ((name, some (recording parameters reply)) :: table) :=
  proper.cons fresh (fun action acts => by cases acts; exact supported) .nil

theorem proper_sampleTable : Proper sampleTable := by
  refine .cons (.recording .nil (by decide) (List.forall_mem_nil _)) (by decide) ?_ ?_
  · intro action acts
    cases acts
  · refine .recording (.recording .nil (by decide) ?_) (by decide) ?_
    · exact List.forall_mem_cons.mpr ⟨trivial, List.forall_mem_singleton.mpr trivial⟩
    · exact List.forall_mem_singleton.mpr trivial

/-- Two commands that another one brings are called, the second with a zero for what is left out,
and nothing is called behind a command that fails. -/
theorem executeAt_leftToRight_sample :
    let words := ["tools", "say", "x", "count", "y"].map Text.ofString
    let memory : TableMemory (List Argument) := #[[], sampleTable]
    Proper sampleTable ∧ memory[1]? = some sampleTable ∧
    (executeAt memory 1 words []).2 = ([.text "x", .text "y", .integer 0], .done) ∧
    (executeAt memory 1 words []).1[1]? = some sampleTable ∧
    (executeAt memory 1 (["fail", "tools"].map Text.ofString) []).2 =
      ([], .failed (.failed "no")) ∧
    ¬ Ending.Panics (execute sampleTable (["fail", "tools"].map Text.ofString) []).2 := by
  intro words memory
  have proper := proper_sampleTable
  have whole : ∃ calls, Reads sampleTable words calls none ∧
      calls.foldlM (Call.make [.silent]) [] = .ok [.text "x", .text "y", .integer 0] :=
    ⟨_, .next rfl (.nothing rfl) rfl (.next rfl (.call rfl (.given rfl .none)) rfl
      (.next rfl (.call rfl (.given rfl (.missing .none))) rfl .whole)), rfl⟩
  have failing : ∃ calls stop, Reads sampleTable (["fail", "tools"].map Text.ofString) calls stop ∧
      calls.foldlM (Call.make [.silent]) [] = .error ([], .failure "no") :=
    ⟨_, _, .next rfl (.call rfl .none) rfl (.next rfl (.nothing rfl) rfl .whole), rfl⟩
  obtain ⟨calls, reads, made⟩ := whole
  obtain ⟨_, _, _, unique, runs⟩ := executeAt_leftToRight proper words
  obtain ⟨rfl, rfl⟩ := unique _ _ reads
  obtain ⟨kept, same, comes, -⟩ := runs memory 1 [] rfl
  obtain ⟨others, stop, also, failed⟩ := failing
  obtain ⟨_, _, _, unique, runs⟩ :=
    executeAt_leftToRight proper (["fail", "tools"].map Text.ofString)
  obtain ⟨rfl, rfl⟩ := unique _ _ also
  obtain ⟨-, again, ends, -, panics, -⟩ := runs memory 1 [] rfl
  rw [made] at comes
  rw [failed] at ends panics
  refine ⟨proper, rfl, same.trans comes, kept 1 (by decide), again.trans ends, ?_⟩
  rw [panics]
  rintro ⟨final, answered⟩
  cases answered

/-- Where an action answers that all went well the line ends, though nothing is wrong with it and
the rest of it asks for one more call. -/
theorem execute_breaksOff :
    let table : CommandTable (List Argument) := [("say", some (recording [.text] .success))]
    let words := ["say", "x", "say", "y"].map Text.ofString
    let action : CommandAction (List Argument) :=
      { parameters := [.text], run := fun arguments seen => (seen ++ arguments, .success) }
    let calls : List (Call (List Argument)) := [⟨action, [.text "x"]⟩, ⟨action, [.text "y"]⟩]
    Proper table ∧ Reads table words calls none ∧
    outcome none (calls.foldlM (Call.make [.success, .silent]) []) =
      ([.text "x", .text "y"], .done) ∧
    execute table words [] = ([.text "x"], .failed .success) ∧
    Ending.Panics (execute table words []).2 := by
  intro table words action calls
  have proper : Proper table :=
    .recording .nil (by decide) (List.forall_mem_singleton.mpr trivial)
  have reads : Reads table words calls none :=
    .next rfl (.call rfl (.given rfl .none)) rfl
      (.next rfl (.call rfl (.given rfl .none)) rfl .whole)
  have ends : execute table words [] = ([.text "x"], .failed .success) :=
    execute_of_reads proper reads []
  refine ⟨proper, reads, rfl, ends, ?_⟩
  rw [ends]
  exact ⟨.success, rfl, rfl⟩

end CommandTable

end ScriptEngine
