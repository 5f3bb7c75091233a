/-
# Proofs.Grammar -- the reader accepts exactly the grammar

`Spells tokens node` is the grammar: which token lists spell which expression, one
constructor for each of its rules.  `SpellsAll tokens nodes` says that a token list is a
concatenation of segments that spell the nodes in order.

`acceptsGrammar_iff_endFits`: reading tokens gives a program exactly if the tokens before
the first `endOfInput` token spell its statements, and every other token list is a fault, as
long as there is a reader for the tokens; there is one unless the last of them stands so far
to the right that the place after it overflows.

The reader is a pushdown machine, so both halves go through its states.

* `Step` lists what taking one token can do (`Step.of_accept`, `Step.accept_eq`) and `Reads`
  is its closure; a reading succeeds exactly if a run of steps ends in a complete state
  (`read_eq_ok_iff`).
* Completeness: the tokens of an expression take the reader from any state that awaits an
  expression to the state in which that expression fills the hole (`Reads.of_spells`).
* Soundness: `Consumed tokens s` says what the tokens taken so far must look like in state
  `s`.  A step keeps it (`Consumed.step`), so every run does (`Consumed.reads`), and in a
  complete state it says that the tokens spell the statements.
-/
import ColonLisp.Node.Reader

set_option autoImplicit false

namespace ColonLisp

/-! ## The grammar -/

/-- The tokens spell the expression. -/
inductive Spells : List Token → Node → Prop where
  | string {t : Token} : t.kind = .string → Spells [t] (.string (Text.Quoted.decode t.text))
  | ref {t : Token} : t.kind = .identifier → Spells [t] (.ref t.text)
  | yes {t : Token} : t.kind = .boolean → t.text = ":true" → Spells [t] (.boolean true)
  | no {t : Token} : t.kind = .boolean → t.text = ":false" → Spells [t] (.boolean false)
  | definition {opening keyword name closing : Token} {body : List Token} {value : Node} :
      opening.kind = .leftParen → keyword.kind = .define → name.kind = .identifier →
      Spells body value → closing.kind = .rightParen →
      Spells (opening :: keyword :: name :: body ++ [closing]) (.definition name.text value)
  | conditional {opening keyword closing : Token} {first second third : List Token}
      {condition onTrue onFalse : Node} :
      opening.kind = .leftParen → keyword.kind = .conditional →
      Spells first condition → Spells second onTrue → Spells third onFalse →
      closing.kind = .rightParen →
      Spells (opening :: keyword :: first ++ second ++ third ++ [closing])
        (.conditional condition onTrue onFalse)

/-- An expression of the grammar, all of whose names are of a class: no program stands
inside it. -/
inductive Node.IsExpression (names : String → Prop) : Node → Prop where
  | string (text : String) : IsExpression names (.string text)
  | boolean (value : Bool) : IsExpression names (.boolean value)
  | ref {name : String} : names name → IsExpression names (.ref name)
  | definition {name : String} {value : Node} :
      names name → IsExpression names value → IsExpression names (.definition name value)
  | conditional {condition onTrue onFalse : Node} :
      IsExpression names condition → IsExpression names onTrue → IsExpression names onFalse →
      IsExpression names (.conditional condition onTrue onFalse)

/-- What tokens spell is an expression, with the names of its identifier tokens. -/
theorem Spells.isExpression {names : String → Prop} {tokens : List Token} {node : Node}
    (spelled : Spells tokens node) (named : ∀ t ∈ tokens, t.kind = .identifier → names t.text) :
    node.IsExpression names := by
  induction spelled with
  | string => exact .string _
  | ref kind => exact .ref (named _ List.mem_cons_self kind)
  | yes | no => exact .boolean _
  | definition _ _ isName _ _ ih =>
      refine .definition (named _ (by simp) isName) (ih fun t member => ?_)
      exact named t (by simp [member])
  | conditional _ _ _ _ _ _ first second third =>
      refine .conditional (first fun t member => ?_) (second fun t member => ?_)
        (third fun t member => ?_)
      all_goals exact named t (by simp [member])

/-- What tokens spell does not depend on their places. -/
theorem Spells.map {place : Token → Token} (kind : ∀ t, (place t).kind = t.kind)
    (text : ∀ t, (place t).text = t.text) {tokens : List Token} {node : Node}
    (spelled : Spells tokens node) : Spells (tokens.map place) node := by
  induction spelled with
  | @string t isString =>
      rw [← text t]
      exact .string ((kind t).trans isString)
  | @ref t isName =>
      rw [← text t]
      exact .ref ((kind t).trans isName)
  | yes isBoolean word => exact .yes ((kind _).trans isBoolean) ((text _).trans word)
  | no isBoolean word => exact .no ((kind _).trans isBoolean) ((text _).trans word)
  | @definition opening keyword name closing body value isOpening isKeyword isName _ isClosing ih =>
      have form := Spells.definition ((kind opening).trans isOpening)
        ((kind keyword).trans isKeyword) ((kind name).trans isName) ih
        ((kind closing).trans isClosing)
      simpa [text] using form
  | @conditional opening keyword closing _ _ _ _ _ _ isOpening isKeyword _ _ _ isClosing first
      second third =>
      have form := Spells.conditional ((kind opening).trans isOpening)
        ((kind keyword).trans isKeyword) first second third ((kind closing).trans isClosing)
      simpa using form

/-- A token that spells an expression alone. -/
theorem Spells.kind_ne {t : Token} {node : Node} (spelled : Spells [t] node) :
    t.kind ≠ .endOfInput ∧ t.kind ≠ .error ∧ t.kind ≠ .leftParen := by
  cases spelled with
  | string kind | ref kind | yes kind _ | no kind _ => simp [kind]

/-- The tokens are a concatenation of segments that spell the nodes in order. -/
inductive SpellsAll : List Token → List Node → Prop where
  | nil : SpellsAll [] []
  | cons {segment rest : List Token} {node : Node} {nodes : List Node} :
      Spells segment node → SpellsAll rest nodes → SpellsAll (segment ++ rest) (node :: nodes)

theorem SpellsAll.append {first second : List Token} {nodes more : List Node}
    (spelled : SpellsAll first nodes) (next : SpellsAll second more) :
    SpellsAll (first ++ second) (nodes ++ more) := by
  induction spelled with
  | nil => exact next
  | cons segment _ ih =>
      rw [List.append_assoc, List.cons_append]
      exact .cons segment ih

theorem SpellsAll.concat {tokens segment : List Token} {nodes : List Node} {node : Node}
    (spelled : SpellsAll tokens nodes) (last : Spells segment node) :
    SpellsAll (tokens ++ segment) (nodes ++ [node]) := by
  have single : SpellsAll (segment ++ []) [node] := .cons last .nil
  rw [List.append_nil] at single
  exact spelled.append single

theorem SpellsAll.map {place : Token → Token} (kind : ∀ t, (place t).kind = t.kind)
    (text : ∀ t, (place t).text = t.text) {tokens : List Token} {nodes : List Node}
    (spelled : SpellsAll tokens nodes) : SpellsAll (tokens.map place) nodes := by
  induction spelled with
  | nil => exact .nil
  | cons segment _ ih =>
      rw [List.map_append]
      exact .cons (segment.map kind text) ih

theorem SpellsAll.isExpression {names : String → Prop} {tokens : List Token} {nodes : List Node}
    (spelled : SpellsAll tokens nodes) (named : ∀ t ∈ tokens, t.kind = .identifier → names t.text) :
    ∀ node ∈ nodes, node.IsExpression names := by
  induction spelled with
  | nil => simp
  | cons segment _ ih =>
      refine List.forall_mem_cons.mpr ⟨?_, ?_⟩
      · exact segment.isExpression fun t member => named t (by simp [member])
      · exact ih fun t member => named t (by simp [member])

/-- The tokens before the first `endOfInput` token. -/
def beforeEnd (tokens : List Token) : List Token :=
  tokens.takeWhile fun t => t.kind != .endOfInput

theorem beforeEnd_cons_of_ne {t : Token} (rest : List Token) (more : t.kind ≠ .endOfInput) :
    beforeEnd (t :: rest) = t :: beforeEnd rest := by
  simp [beforeEnd, more]

namespace Reader

/-! ## The steps of the reader -/

/-- What taking one token can do to a state. -/
inductive Step : State → Token → State → Prop where
  | opening {s : State} {t : Token} :
      s.focus = .expression → t.kind = .leftParen → Step s t { s with focus := .head }
  | atom {s : State} {t : Token} {node : Node} :
      s.focus = .expression → Spells [t] node → Step s t (s.fill node)
  | define {s : State} {t : Token} :
      s.focus = .head → t.kind = .define → Step s t { s with focus := .name }
  | conditional {s : State} {t : Token} :
      s.focus = .head → t.kind = .conditional →
      Step s t ⟨s.done, .condition :: s.holes, .expression⟩
  | name {s : State} {t : Token} :
      s.focus = .name → t.kind = .identifier →
      Step s t ⟨s.done, .value t.text :: s.holes, .expression⟩
  | closing {s : State} {t : Token} {form : Node} :
      s.focus = .close form → t.kind = .rightParen → Step s t (s.fill form)

theorem boolean?_eq_some_iff {word : String} {value : Bool} :
    boolean? word = some value ↔
      word = ":true" ∧ value = true ∨ word = ":false" ∧ value = false := by
  unfold boolean?
  by_cases yes : word = ":true"
  · subst yes
    simp [eq_comm]
  · by_cases no : word = ":false"
    · subst no
      simp [eq_comm]
    · simp [yes, no]

theorem Step.of_accept {s next : State} {t : Token} (taken : s.accept t = .ok next) :
    Step s t next := by
  unfold State.accept at taken
  split at taken
  · rename_i focus
    split at taken
    · rename_i kind
      cases taken
      exact .opening focus kind
    · rename_i kind
      cases taken
      exact .atom focus (.string kind)
    · rename_i kind
      cases taken
      exact .atom focus (.ref kind)
    · rename_i kind
      split at taken
      · rename_i value found
        cases taken
        obtain ⟨text, rfl⟩ | ⟨text, rfl⟩ := boolean?_eq_some_iff.mp found
        · exact .atom focus (.yes kind text)
        · exact .atom focus (.no kind text)
      · cases taken
    · cases taken
  · rename_i focus
    split at taken
    · rename_i kind
      cases taken
      exact .define focus kind
    · rename_i kind
      cases taken
      exact .conditional focus kind
    all_goals cases taken
  · rename_i focus
    split at taken
    · rename_i kind
      cases taken
      exact .name focus kind
    · cases taken
  · rename_i form focus
    split at taken
    · rename_i kind
      cases taken
      exact .closing focus kind
    · cases taken

theorem Step.accept_eq {s next : State} {t : Token} (step : Step s t next) :
    s.accept t = .ok next := by
  cases step with
  | opening focus kind | define focus kind | conditional focus kind | name focus kind
  | closing focus kind => simp [State.accept, focus, kind]
  | atom focus spelled =>
      cases spelled with
      | string kind | ref kind => simp [State.accept, focus, kind]
      | yes kind text | no kind text => simp [State.accept, focus, kind, text, boolean?]

/-- The two kinds that end a reading are never taken. -/
theorem Step.kind_ne {s next : State} {t : Token} (step : Step s t next) :
    t.kind ≠ .endOfInput ∧ t.kind ≠ .error := by
  cases step with
  | opening _ kind | define _ kind | conditional _ kind | name _ kind | closing _ kind =>
      simp [kind]
  | atom _ spelled => exact ⟨spelled.kind_ne.1, spelled.kind_ne.2.1⟩

/-- Taking all of the tokens leads from the first state to the last. -/
inductive Reads : State → List Token → State → Prop where
  | nil {s : State} : Reads s [] s
  | cons {s next last : State} {t : Token} {rest : List Token} :
      Step s t next → Reads next rest last → Reads s (t :: rest) last

theorem Reads.append {s middle last : State} {first second : List Token}
    (front : Reads s first middle) (back : Reads middle second last) :
    Reads s (first ++ second) last := by
  induction front with
  | nil => exact back
  | cons step _ ih => exact .cons step (ih back)

theorem Reads.single {s next : State} {t : Token} (step : Step s t next) : Reads s [t] next :=
  .cons step .nil

/-- No token that a run takes ends the reading. -/
theorem Reads.beforeEnd_eq {s last : State} {tokens : List Token} (run : Reads s tokens last) :
    beforeEnd tokens = tokens := by
  induction run with
  | nil => rfl
  | cons step _ ih => rw [beforeEnd_cons_of_ne _ step.kind_ne.1, ih]

theorem exists_reads_nil {s : State} {holds : State → Prop} :
    (∃ last, Reads s [] last ∧ holds last) ↔ holds s := by
  constructor
  · rintro ⟨last, run, held⟩
    cases run
    exact held
  · exact fun held => ⟨s, .nil, held⟩

theorem finish_eq_ok_iff {s : State} {pos : Position} {program : Node} :
    s.finish pos = .ok program ↔ s.isComplete = true ∧ program = .program s.done.reverse := by
  unfold State.finish
  by_cases complete : s.isComplete = true
  · simp [complete, eq_comm]
  · simp [complete]

/-- A reading gives a program exactly if taking the tokens before the end leads to a
complete state. -/
theorem read_eq_ok_iff {stop : Position} {s : State} {tokens : List Token} {program : Node} :
    (s.read stop tokens).1 = .ok program ↔
      ∃ last, Reads s (beforeEnd tokens) last ∧ last.isComplete = true ∧
        program = .program last.done.reverse := by
  induction tokens generalizing s with
  | nil =>
      rw [State.read, show beforeEnd [] = [] from rfl, exists_reads_nil, finish_eq_ok_iff]
  | cons t rest ih =>
      by_cases ends : t.kind = .endOfInput
      · have none : beforeEnd (t :: rest) = [] := by simp [beforeEnd, ends]
        rw [State.read, none, exists_reads_nil]
        simp only [ends, finish_eq_ok_iff]
      · rw [beforeEnd_cons_of_ne rest ends]
        constructor
        · intro read
          rw [State.read] at read
          split at read
          · contradiction
          · cases read
          · split at read
            · rename_i next taken
              obtain ⟨last, run, finished⟩ := ih.mp read
              exact ⟨last, .cons (.of_accept taken) run, finished⟩
            · cases read
        · rintro ⟨last, run, finished⟩
          cases run with
          | cons step run =>
              rw [State.read]
              split
              · contradiction
              · exact absurd ‹_› step.kind_ne.2
              · rw [step.accept_eq]
                exact ih.mpr ⟨last, run, finished⟩

/-- The reader objects to tokens, and passes on what the lexer objected to. -/
theorem stage_of_read {stop : Position} {s : State} {tokens : List Token} {fault : Fault}
    (refused : (s.read stop tokens).1 = .error fault) :
    fault.stage = .lexing ∨ fault.stage = .parsing := by
  have finished : ∀ {s : State} {pos : Position}, s.finish pos = .error fault →
      fault.stage = .parsing := by
    intro s pos refused
    unfold State.finish at refused
    split at refused
    · cases refused
    · cases refused
      rfl
  induction tokens generalizing s with
  | nil => exact .inr (finished refused)
  | cons t rest ih =>
      rw [State.read] at refused
      split at refused
      · exact .inr (finished refused)
      · cases refused
        exact .inl rfl
      · split at refused
        · exact ih refused
        · cases refused
          exact .inr rfl

/-! ## Whatever the grammar spells is read -/

/-- The tokens of an expression take the reader from a state that awaits an expression to
the one in which that expression has filled the hole. -/
theorem Reads.of_spells {tokens : List Token} {node : Node} (spelled : Spells tokens node) :
    ∀ (done : List Node) (holes : List Hole),
      Reads ⟨done, holes, .expression⟩ tokens (State.fill ⟨done, holes, .expression⟩ node) := by
  induction spelled with
  | string kind => exact fun done holes => .single (.atom rfl (.string kind))
  | ref kind => exact fun done holes => .single (.atom rfl (.ref kind))
  | yes kind text => exact fun done holes => .single (.atom rfl (.yes kind text))
  | no kind text => exact fun done holes => .single (.atom rfl (.no kind text))
  | @definition _ _ name _ _ value opening keyword isName _ closing body =>
      intro done holes
      have last : Reads ⟨done, holes, .close (.definition name.text value)⟩ [_] _ :=
        .single (.closing rfl closing)
      have inside := (body done (.value name.text :: holes)).append last
      exact .cons (.opening rfl opening)
        (.cons (.define rfl keyword) (.cons (.name rfl isName) inside))
  | @conditional _ _ _ _ _ _ condition onTrue onFalse opening keyword _ _ _ closing first second
      third =>
      intro done holes
      have last : Reads ⟨done, holes, .close (.conditional condition onTrue onFalse)⟩ [_] _ :=
        .single (.closing rfl closing)
      have inside := (((first done (.condition :: holes)).append
        (second done (.onTrue condition :: holes))).append
          (third done (.onFalse condition onTrue :: holes))).append last
      exact .cons (.opening rfl opening) (.cons (.conditional rfl keyword) inside)

theorem Reads.of_spellsAll {tokens : List Token} {nodes : List Node}
    (spelled : SpellsAll tokens nodes) :
    ∀ done : List Node,
      Reads ⟨done, [], .expression⟩ tokens ⟨nodes.reverse ++ done, [], .expression⟩ := by
  induction spelled with
  | nil => exact fun done => .nil
  | @cons segment rest node nodes spelled _ ih =>
      intro done
      have front := Reads.of_spells spelled done []
      rw [List.reverse_cons, List.append_assoc]
      exact front.append (ih (node :: done))

/-! ## Whatever is read is spelled by the grammar -/

/-- The tokens begin the open forms, the outermost first. -/
inductive HolesConsumed : List Token → List Hole → Prop where
  | nil : HolesConsumed [] []
  | value {tokens : List Token} {outer : List Hole} {opening keyword name : Token} :
      HolesConsumed tokens outer → opening.kind = .leftParen → keyword.kind = .define →
      name.kind = .identifier →
      HolesConsumed (tokens ++ [opening, keyword, name]) (.value name.text :: outer)
  | condition {tokens : List Token} {outer : List Hole} {opening keyword : Token} :
      HolesConsumed tokens outer → opening.kind = .leftParen → keyword.kind = .conditional →
      HolesConsumed (tokens ++ [opening, keyword]) (.condition :: outer)
  | onTrue {tokens first : List Token} {outer : List Hole} {opening keyword : Token}
      {condition : Node} :
      HolesConsumed tokens outer → opening.kind = .leftParen → keyword.kind = .conditional →
      Spells first condition →
      HolesConsumed (tokens ++ opening :: keyword :: first) (.onTrue condition :: outer)
  | onFalse {tokens first second : List Token} {outer : List Hole} {opening keyword : Token}
      {condition onTrue : Node} :
      HolesConsumed tokens outer → opening.kind = .leftParen → keyword.kind = .conditional →
      Spells first condition → Spells second onTrue →
      HolesConsumed (tokens ++ opening :: keyword :: first ++ second)
        (.onFalse condition onTrue :: outer)

/-- The tokens since the last hole, by what is awaited after them. -/
inductive FocusConsumed : List Token → Focus → Prop where
  | expression : FocusConsumed [] .expression
  | head {opening : Token} : opening.kind = .leftParen → FocusConsumed [opening] .head
  | name {opening keyword : Token} :
      opening.kind = .leftParen → keyword.kind = .define → FocusConsumed [opening, keyword] .name
  | close {tokens : List Token} {form : Node} :
      (∀ closing : Token, closing.kind = .rightParen → Spells (tokens ++ [closing]) form) →
      FocusConsumed tokens (.close form)

/-- What the tokens taken so far look like in a state: the complete statements, the open
forms, and the tokens since the last hole. -/
inductive Consumed : List Token → State → Prop where
  | mk {statements forms front : List Token} {done : List Node} {holes : List Hole}
      {focus : Focus} :
      SpellsAll statements done.reverse → HolesConsumed forms holes → FocusConsumed front focus →
      Consumed (statements ++ forms ++ front) ⟨done, holes, focus⟩

theorem Consumed.start : Consumed [] State.start := by
  have none : SpellsAll [] ([] : List Node).reverse := .nil
  exact .mk none .nil .expression

/-- An expression that fills the innermost hole. -/
theorem Consumed.fill {statements forms segment : List Token} {done : List Node}
    {holes : List Hole} {node : Node} (focus : Focus)
    (spelled : SpellsAll statements done.reverse) (inner : HolesConsumed forms holes)
    (filler : Spells segment node) :
    Consumed (statements ++ forms ++ segment) (State.fill ⟨done, holes, focus⟩ node) := by
  cases inner with
  | nil =>
      have grown : SpellsAll (statements ++ segment) (node :: done).reverse := by
        rw [List.reverse_cons]
        exact spelled.concat filler
      simpa [State.fill] using Consumed.mk grown .nil .expression
  | @value tokens outer opening keyword name inner isOpening isKeyword isName =>
      have front : FocusConsumed (opening :: keyword :: name :: segment)
          (.close (.definition name.text node)) :=
        .close fun closing isClosing => .definition isOpening isKeyword isName filler isClosing
      simpa [State.fill] using Consumed.mk spelled inner front
  | @condition tokens outer opening keyword inner isOpening isKeyword =>
      have grown : HolesConsumed (tokens ++ opening :: keyword :: segment) _ :=
        .onTrue inner isOpening isKeyword filler
      simpa [State.fill] using Consumed.mk spelled grown .expression
  | @onTrue tokens first outer opening keyword condition inner isOpening isKeyword spellsFirst =>
      have grown : HolesConsumed (tokens ++ opening :: keyword :: first ++ segment) _ :=
        .onFalse inner isOpening isKeyword spellsFirst filler
      simpa [State.fill] using Consumed.mk spelled grown .expression
  | @onFalse tokens first second outer opening keyword condition onTrue inner isOpening isKeyword
      spellsFirst spellsSecond =>
      have front : FocusConsumed (opening :: keyword :: first ++ second ++ segment)
          (.close (.conditional condition onTrue node)) :=
        .close fun closing isClosing =>
          .conditional isOpening isKeyword spellsFirst spellsSecond filler isClosing
      simpa [State.fill] using Consumed.mk spelled inner front

/-- Each step keeps the invariant. -/
theorem Consumed.step {tokens : List Token} {s next : State} {t : Token}
    (consumed : Consumed tokens s) (step : Step s t next) : Consumed (tokens ++ [t]) next := by
  obtain ⟨spelled, inner, front⟩ := consumed
  cases step with
  | opening focus kind =>
      cases focus
      cases front
      simpa using Consumed.mk spelled inner (.head kind)
  | atom focus atomSpelled =>
      cases focus
      cases front
      simpa using Consumed.fill .expression spelled inner atomSpelled
  | define focus kind =>
      cases focus
      cases front with
      | head isOpening => simpa using Consumed.mk spelled inner (.name isOpening kind)
  | conditional focus kind =>
      cases focus
      cases front with
      | head isOpening =>
          simpa using Consumed.mk spelled (.condition inner isOpening kind) .expression
  | name focus kind =>
      cases focus
      cases front with
      | name isOpening isKeyword =>
          simpa using Consumed.mk spelled (.value inner isOpening isKeyword kind) .expression
  | closing focus kind =>
      cases focus
      cases front with
      | close completes => simpa using Consumed.fill (.close _) spelled inner (completes t kind)

/-- A run of steps keeps the invariant. -/
theorem Consumed.reads {before tokens : List Token} {s last : State}
    (consumed : Consumed before s) (run : Reads s tokens last) :
    Consumed (before ++ tokens) last := by
  induction run generalizing before with
  | nil => simpa using consumed
  | cons step _ ih => simpa using ih (consumed.step step)

/-- In a complete state all tokens belong to statements. -/
theorem Consumed.spellsAll {tokens : List Token} {s : State} (consumed : Consumed tokens s)
    (complete : s.isComplete = true) : SpellsAll tokens s.done.reverse := by
  obtain ⟨spelled, inner, front⟩ := consumed
  cases inner with
  | nil =>
      cases front with
      | expression => simpa using spelled
      | _ => simp [State.isComplete] at complete
  | _ => simp [State.isComplete] at complete

end Reader

/-! ## Parsing -/

theorem parse_of_spellsAll {tokens : List Token} {nodes : List Node}
    (spelled : SpellsAll (beforeEnd tokens) nodes) : parse tokens = .ok (.program nodes) := by
  have run := Reader.Reads.of_spellsAll spelled []
  rw [List.append_nil] at run
  refine Reader.read_eq_ok_iff.mpr ⟨_, run, rfl, ?_⟩
  rw [List.reverse_reverse]

/-- Tokens that spell statements need no `endOfInput` token after them. -/
theorem SpellsAll.parse_eq {tokens : List Token} {nodes : List Node}
    (spelled : SpellsAll tokens nodes) : parse tokens = .ok (.program nodes) := by
  refine parse_of_spellsAll ?_
  rw [(Reader.Reads.of_spellsAll spelled []).beforeEnd_eq]
  exact spelled

theorem spellsAll_of_parse {tokens : List Token} {program : Node}
    (parsed : parse tokens = .ok program) :
    ∃ nodes, program = .program nodes ∧ SpellsAll (beforeEnd tokens) nodes := by
  obtain ⟨last, run, complete, rfl⟩ := Reader.read_eq_ok_iff.mp parsed
  exact ⟨_, rfl, (Reader.Consumed.start.reads run).spellsAll complete⟩

theorem parse_eq_ok_iff {tokens : List Token} {nodes : List Node} :
    parse tokens = .ok (.program nodes) ↔ SpellsAll (beforeEnd tokens) nodes := by
  constructor
  · intro parsed
    obtain ⟨_, same, spelled⟩ := spellsAll_of_parse parsed
    cases same
    exact spelled
  · exact parse_of_spellsAll

theorem exists_parse_eq_error_iff {tokens : List Token} :
    (∃ fault, parse tokens = .error fault) ↔ ¬ ∃ nodes, SpellsAll (beforeEnd tokens) nodes := by
  constructor
  · rintro ⟨fault, refused⟩ ⟨nodes, spelled⟩
    rw [parse_of_spellsAll spelled] at refused
    cases refused
  · intro none
    cases parsed : parse tokens with
    | error fault => exact ⟨fault, rfl⟩
    | ok program =>
        obtain ⟨nodes, _, spelled⟩ := spellsAll_of_parse parsed
        exact absurd ⟨nodes, spelled⟩ none

/-- Reading the tokens gives a program exactly if the grammar has it, and otherwise a fault. -/
structure AcceptsGrammar (tokens : List Token) : Prop where
  accepts : ∀ nodes, parse? tokens = some (.ok (.program nodes)) ↔
    SpellsAll (beforeEnd tokens) nodes
  refuses : (∃ fault, parse? tokens = some (.error fault)) ↔
    ¬ ∃ nodes, SpellsAll (beforeEnd tokens) nodes

/-- The grammar accepts the tokens or it does not; either way reading them gives something, so
they have a reader. -/
theorem AcceptsGrammar.endFits {tokens : List Token} (grammar : AcceptsGrammar tokens) :
    Reader.EndFits tokens := by
  by_cases spelled : ∃ nodes, SpellsAll (beforeEnd tokens) nodes
  · obtain ⟨nodes, spelled⟩ := spelled
    exact (parse?_eq_some_iff.mp ((grammar.accepts nodes).mpr spelled)).1
  · obtain ⟨fault, refused⟩ := grammar.refuses.mpr spelled
    exact (parse?_eq_some_iff.mp refused).1

/-- **The reader accepts exactly the grammar**, and builds the tree of the derivation, for the
tokens that it can be made for.  They may be of any kinds in any order; what follows an
`endOfInput` token is not read.  There is a reader exactly if the column after the last token
fits in a word. -/
theorem acceptsGrammar_iff_endFits (tokens : List Token) :
    (AcceptsGrammar tokens ↔ Reader.EndFits tokens) ∧
      (parse? tokens = none ↔ ¬ Reader.EndFits tokens) := by
  refine ⟨⟨AcceptsGrammar.endFits, fun fits => ⟨fun nodes => ?_, ?_⟩⟩, parse?_eq_none_iff⟩
  · rw [parse?_of_endFits fits, Option.some.injEq, parse_eq_ok_iff]
  · simp only [parse?_of_endFits fits, Option.some.injEq, exists_parse_eq_error_iff]

/-- A name in the last column that a word can count spells a program, and nothing reads it. -/
theorem spelled_and_unread_in_last_column :
    let name : Token := ⟨.identifier, "x", ⟨1, 18446744073709551615⟩⟩
    name.pos.column < UInt64.size ∧ SpellsAll (beforeEnd [name]) [.ref "x"] ∧
      parse? [name] = none ∧ ¬ AcceptsGrammar [name] := by
  intro name
  have overflows : ¬ Reader.EndFits [name] := by decide
  refine ⟨by decide, .cons (.ref rfl) .nil, parse?_eq_none_iff.mpr overflows, fun grammar => ?_⟩
  exact overflows grammar.endFits

end ColonLisp
