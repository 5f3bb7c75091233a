/-
# Proofs.JsonRoundTrip -- nodes and tokens are read back from their JSON texts

`json_reads_back`: a syntax tree, a token and a list of tokens are each decoded from their
compact text, their pretty text and their dump.

The text is read back as the JSON value that was written, because that value is regular
(`Node.regular_toJson`, `Token.regular_toJson`), and a node or a token is the one that its
object stands for (`Node.ofJson?_toJson`, `Token.ofJson?_toJson`).
-/
import ColonLisp.Command
import ColonLisp.Proofs.JsonText

set_option autoImplicit false

namespace ColonLisp

namespace Json

/-- Both texts of a JSON value, and the dump of it, are decoded to a value. -/
structure ReadsBack {α : Type} (decode : Json → Option α) (json : Json) (value : α) : Prop where
  compact : (read? json.compact).bind decode = some value
  pretty : (read? json.pretty).bind decode = some value
  dump : (read? (Command.dump true json)).bind decode = some value

theorem Regular.readsBack {α : Type} {decode : Json → Option α} {json : Json} {value : α}
    (regular : json.Regular) (decoded : decode json = some value) :
    ReadsBack decode json value := by
  have alone : ∀ {layout : Layout}, layout.Airy → read? (json.write layout) = some json := by
    intro layout airy
    simpa using regular.read?_write airy (show ∀ c ∈ "".toList, isSpace c = true by simp)
  have line : read? (json.pretty ++ "\n") = some json :=
    regular.read?_write Layout.pretty_airy (List.all_eq_true.mp rfl)
  refine ⟨?_, ?_, ?_⟩
  · rw [compact, alone Layout.compact_airy]
    exact decoded
  · rw [pretty, alone Layout.pretty_airy]
    exact decoded
  · rw [Command.dump, if_pos rfl, line]
    exact decoded

end Json

/-! ## Nodes -/

namespace Node

/-- An object with one member. -/
theorem regular_form {key : String} {parts : Json} (regular : parts.Regular) :
    (Json.object [(key, parts)]).Regular :=
  .object (by simp) (by simpa using regular)

mutual

theorem regular_toJson : ∀ node : Node, node.toJson.Regular
  | .program statements => by
      rw [toJson]
      exact regular_form (.array (regular_toJsonAll statements))
  | .definition name value => by
      have expression := regular_toJson value
      rw [toJson]
      exact regular_form (.object (by simp) (by simpa using ⟨.string name, expression⟩))
  | .conditional condition onTrue onFalse => by
      have first := regular_toJson condition
      have second := regular_toJson onTrue
      have third := regular_toJson onFalse
      rw [toJson]
      exact regular_form (.object (by simp) (by simpa using ⟨first, second, third⟩))
  | .ref name => by
      rw [toJson]
      exact regular_form (.string name)
  | .string text => by
      rw [toJson]
      exact regular_form (.string text)
  | .boolean value => by
      rw [toJson]
      exact regular_form (.bool value)

theorem regular_toJsonAll : ∀ nodes : List Node, ∀ json ∈ toJsonAll nodes, json.Regular
  | [] => by simp [toJsonAll]
  | node :: rest => by
      rw [toJsonAll]
      exact List.forall_mem_cons.mpr ⟨regular_toJson node, regular_toJsonAll rest⟩

end

mutual

/-- A node is the one that its object stands for. -/
theorem ofJson?_toJson : ∀ node : Node, ofJson? node.toJson = some node
  | .program statements => by
      rw [toJson, ofJson?, ofJsonAll?_toJsonAll statements]
      rfl
  | .definition name value => by
      have expression := ofJson?_toJson value
      simp [toJson, ofJson?, part?, expression, Json.string?]
  | .conditional condition onTrue onFalse => by
      have first := ofJson?_toJson condition
      have second := ofJson?_toJson onTrue
      have third := ofJson?_toJson onFalse
      simp [toJson, ofJson?, part?, first, second, third]
  | .ref name => by rw [toJson, ofJson?]
  | .string text => by rw [toJson, ofJson?]
  | .boolean value => by rw [toJson, ofJson?]

theorem ofJsonAll?_toJsonAll : ∀ nodes : List Node, ofJsonAll? (toJsonAll nodes) = some nodes
  | [] => by rw [toJsonAll, ofJsonAll?]
  | node :: rest => by
      rw [toJsonAll, ofJsonAll?, ofJson?_toJson node, ofJsonAll?_toJsonAll rest]
      rfl

end

end Node

/-! ## Tokens -/

namespace Token

/-- A token whose line and column are 64-bit words. -/
def FitsWords (t : Token) : Prop := t.pos.line < UInt64.size ∧ t.pos.column < UInt64.size

theorem regular_toJson (t : Token) : t.toJson.Regular := by
  refine .object (by simp) ?_
  simpa using ⟨.string t.kind.name, .string t.text, .natural t.pos.line, .natural t.pos.column⟩

theorem Kind.ofName?_name (kind : Kind) : Kind.ofName? kind.name = some kind := by
  cases kind <;> decide

/-- A token is the one that its object stands for. -/
theorem ofJson?_toJson {t : Token} (fits : t.FitsWords) : ofJson? t.toJson = some t := by
  obtain ⟨line, column⟩ := fits
  simp [toJson, ofJson?, Json.member?, ofFields?, Kind.ofJson?, Kind.ofName?_name, Json.string?,
    Json.word?, line, column, List.lookup_cons]

/-- The tokens that a value is. -/
def ofJsonAll? (json : Json) : Option (List Token) := json.array?.bind (·.mapM ofJson?)

theorem ofJsonAll?_toJson {tokens : List Token} (fit : ∀ t ∈ tokens, t.FitsWords) :
    ofJsonAll? (.array (tokens.map toJson)) = some tokens := by
  change (tokens.map toJson).mapM ofJson? = some tokens
  induction tokens with
  | nil => rfl
  | cons t rest ih =>
      obtain ⟨fits, others⟩ := List.forall_mem_cons.mp fit
      rw [List.map_cons, List.mapM_cons, ofJson?_toJson fits, ih others]
      rfl

end Token

/-- **Nodes and tokens are read back from their JSON texts**, compact or pretty.  Lines and
columns are 64-bit words; apart from that the node and the tokens are arbitrary. -/
theorem json_reads_back (node : Node) (tokens : List Token) (fit : ∀ t ∈ tokens, t.FitsWords) :
    Json.ReadsBack Node.ofJson? node.toJson node ∧
      (∀ t ∈ tokens, Json.ReadsBack Token.ofJson? t.toJson t) ∧
      Json.ReadsBack Token.ofJsonAll? (.array (tokens.map Token.toJson)) tokens := by
  refine ⟨?_, fun t member => ?_, ?_⟩
  · exact node.regular_toJson.readsBack node.ofJson?_toJson
  · exact t.regular_toJson.readsBack (Token.ofJson?_toJson (fit t member))
  · have regular : (Json.array (tokens.map Token.toJson)).Regular := by
      refine .array fun json member => ?_
      obtain ⟨t, _, rfl⟩ := List.mem_map.mp member
      exact t.regular_toJson
    exact regular.readsBack (Token.ofJsonAll?_toJson fit)

/-- A program inside a definition, with a text of escapes, and a token on the last line that a
word can count. -/
theorem json_of_escapes_and_last_line :
    let node := Node.program [.definition "x" (.program [.string "\"\u0001\n𝄞", .boolean true])]
    let t : Token := ⟨.string, "\t\\", ⟨UInt64.size - 1, 0⟩⟩
    t.FitsWords ∧
      t.toJson.compact = "\x7b\"kind\":\"String\",\"text\":\"\\t\\\\\"," ++
        "\"line\":18446744073709551615,\"column\":0\x7d" ∧
      (Json.read? node.toJson.pretty).bind Node.ofJson? = some node ∧
      (Json.read? t.toJson.compact).bind Token.ofJson? = some t ∧
      (Json.read? (Command.dump true (.array [t.toJson]))).bind Token.ofJsonAll? = some [t] := by
  intro node t
  have fits : t.FitsWords := ⟨by decide, by decide⟩
  obtain ⟨nodeBack, tokenBack, tokensBack⟩ := json_reads_back node [t] (by simpa using fits)
  refine ⟨fits, ?_, nodeBack.pretty, ?_, tokensBack.dump⟩
  · decide +kernel
  · exact (tokenBack t List.mem_cons_self).compact

end ColonLisp
