import Songsheet.Yaml.Event
import Songsheet.Yaml.Token.Scan

/-!
# From YAML tokens to events

What is still to be read of a document is a list of goals, the next one first. The tokens to
come tell how the next goal is met: by events, by taking tokens, and by further goals in its
place (`Goal.expand`).

* `Goal.rank_expand` — meeting a goal takes a token or leaves less to be read, so that reading
  comes to an end.
* `events?` — the events of a text with at most one document.
-/

namespace Songsheet.Yaml

/-- The addresses that handles stand for. -/
abbrev Handles := List (String × Octets)

/-- The tag of values of a standard kind. -/
def standardTag (kind : String) : Octets := ("tag:yaml.org,2002:" ++ kind).toUTF8.toList

/-- The handles that need no directive. -/
def standardHandles : Handles := [("!", bang), ("!!", standardTag "")]

/-- The tag that is written by a handle, which must be known; a missing one adds nothing. -/
def Handles.tag? (handles : Handles) (handle : String) (suffix : Octets) : Option Octets :=
  if handle = "" then some suffix else (handles.lookup handle).map (· ++ suffix)

/-! ## Nodes -/

/-- What stands in front of a node. -/
structure Properties where
  anchor : Option String
  tag : Option Octets

/-- Whether nothing stands in front of a node. -/
def Properties.isEmpty (p : Properties) : Bool := p.anchor.isNone && p.tag.isNone

/-- Reads an anchor and a tag, in either order. -/
def properties? (handles : Handles) : List Token → Option (Properties × List Token)
  | .anchor name :: .tag handle suffix :: ts =>
    (handles.tag? handle suffix).map fun tag => (⟨some name, some tag⟩, ts)
  | .anchor name :: ts => some (⟨some name, none⟩, ts)
  | .tag handle suffix :: .anchor name :: ts =>
    (handles.tag? handle suffix).map fun tag => (⟨some name, some tag⟩, ts)
  | .tag handle suffix :: ts =>
    (handles.tag? handle suffix).map fun tag => (⟨none, some tag⟩, ts)
  | ts => some (⟨none, none⟩, ts)

/-! ## Goals -/

/-- Something to be read. A node is in block style or in flow style, and may or may not be a
list in the column of its key. Of a list or a mapping what is to be read is the rest, of a
flow collection before or behind its first comma. A pair is a mapping of one field that stands
in a list without marks of its own. -/
inductive Goal where
  | node (block inMapping : Bool)
  | items
  | itemsInColumn
  | key
  | value
  | flowItem (first : Bool)
  | pairKey
  | pairValue
  | pairEnd
  | flowKey (first : Bool)
  | flowValue
  | noFlowValue
  deriving DecidableEq, Repr

/-- How a goal is met: the events, the goals in its place, and the tokens behind. -/
structure Expansion where
  events : List (Event String)
  goals : List Goal
  tokens : List Token

namespace Goal

/-- Meets the goal of a node. An anchor or a tag alone stands for a blank one. -/
def expandNode (handles : Handles) (block inMapping : Bool) (ts : List Token) :
    Option Expansion := do
  let (p, rest) ← properties? handles ts
  let blank := if p.isEmpty then none
    else some ⟨[.scalar p.anchor { Scalar.blank with tag := p.tag }], [], rest⟩
  match rest with
  | .entry :: _ => if inMapping then some ⟨[.listStart p.anchor], [.itemsInColumn], rest⟩ else blank
  | .scalar style text :: rest => some ⟨[.scalar p.anchor ⟨style, p.tag, text⟩], [], rest⟩
  | .flowSequenceStart :: rest => some ⟨[.listStart p.anchor], [.flowItem true], rest⟩
  | .flowMappingStart :: rest => some ⟨[.mappingStart p.anchor], [.flowKey true], rest⟩
  | .sequenceStart :: rest => if block then some ⟨[.listStart p.anchor], [.items], rest⟩ else blank
  | .mappingStart :: rest => if block then some ⟨[.mappingStart p.anchor], [.key], rest⟩ else blank
  | _ => blank

/-- Meets a goal by a node, unless one of some tokens is next, which leaves it blank, and by
another goal behind it. -/
def nodeUnless (ends : List Token) (block inMapping : Bool) (next : Goal) (ts : List Token) :
    Expansion :=
  if ts.head?.any ends.contains then ⟨[.blank], [next], ts⟩
  else ⟨[], [.node block inMapping, next], ts⟩

/-- Drops the comma that parts the items of a flow collection. -/
def pastComma? (first : Bool) : List Token → Option (List Token)
  | .flowEntry :: ts => if first then none else some ts
  | ts => if first then some ts else none

/-- Meets a goal. The key of a pair may be missing, but the token that shows it is then taken
for the key: the value must come with a colon of its own. -/
def expand (handles : Handles) : Goal → List Token → Option Expansion
  | node _ _, .alias name :: ts => some ⟨[.alias name], [], ts⟩
  | node block inMapping, ts => expandNode handles block inMapping ts
  | items, .entry :: ts => some (nodeUnless [.entry, .blockEnd] true false .items ts)
  | items, .blockEnd :: ts => some ⟨[.listEnd], [], ts⟩
  | items, _ => none
  | itemsInColumn, .entry :: ts =>
    some (nodeUnless [.entry, .key, .value, .blockEnd] true false .itemsInColumn ts)
  | itemsInColumn, ts => some ⟨[.listEnd], [], ts⟩
  | key, .key :: ts => some (nodeUnless [.key, .value, .blockEnd] true true .value ts)
  | key, .blockEnd :: ts => some ⟨[.mappingEnd], [], ts⟩
  | key, _ => none
  | value, .value :: ts => some (nodeUnless [.key, .value, .blockEnd] true true .key ts)
  | value, ts => some ⟨[.blank], [.key], ts⟩
  | flowItem _, .flowSequenceEnd :: ts => some ⟨[.listEnd], [], ts⟩
  | flowItem first, ts =>
    match pastComma? first ts with
    | some (.key :: ts) => some ⟨[.mappingStart none], [.pairKey], ts⟩
    | some (.flowSequenceEnd :: ts) => some ⟨[.listEnd], [], ts⟩
    | some ts => some ⟨[], [.node false false, .flowItem false], ts⟩
    | none => none
  | pairKey, [] => none
  | pairKey, t :: ts =>
    if [.value, .flowEntry, .flowSequenceEnd].contains t then some ⟨[.blank], [.pairValue], ts⟩
    else some ⟨[], [.node false false, .pairValue], t :: ts⟩
  | pairValue, .value :: ts =>
    some (nodeUnless [.flowEntry, .flowSequenceEnd] false false .pairEnd ts)
  | pairValue, ts => some ⟨[.blank], [.pairEnd], ts⟩
  | pairEnd, ts => some ⟨[.mappingEnd], [.flowItem false], ts⟩
  | flowKey _, .flowMappingEnd :: ts => some ⟨[.mappingEnd], [], ts⟩
  | flowKey first, ts =>
    match pastComma? first ts with
    | some (.key :: ts) =>
      some (nodeUnless [.value, .flowEntry, .flowMappingEnd] false false .flowValue ts)
    | some (.flowMappingEnd :: ts) => some ⟨[.mappingEnd], [], ts⟩
    | some ts => some ⟨[], [.node false false, .noFlowValue], ts⟩
    | none => none
  | flowValue, .value :: ts =>
    some (nodeUnless [.flowEntry, .flowMappingEnd] false false (.flowKey false) ts)
  | flowValue, ts => some ⟨[.blank], [.flowKey false], ts⟩
  | noFlowValue, ts => some ⟨[.blank], [.flowKey false], ts⟩

/-! ### Reading comes to an end -/

/-- A bound on the goals that a goal may lead to before a token is taken. -/
def weight : Goal → Nat
  | node _ _ => 2
  | items => 1
  | itemsInColumn => 1
  | key => 1
  | value => 2
  | flowItem first => if first then 4 else 1
  | pairKey => 6
  | pairValue => 3
  | pairEnd => 2
  | flowKey first => if first then 5 else 1
  | flowValue => 2
  | noFlowValue => 2

/-- How much all goals count for. -/
def weights : List Goal → Nat
  | [] => 0
  | g :: goals => g.weight + weights goals

theorem weights_append (goals others : List Goal) :
    weights (goals ++ others) = weights goals + weights others := by
  induction goals with
  | nil => simp [weights]
  | cons g goals ih => simp [weights, ih, Nat.add_assoc]

/-- How much is left to be read: a token counts for more than the goals that it may lead to. -/
def rank (goals : List Goal) (ts : List Token) : Nat :=
  weights goals + 8 * ts.length

theorem length_of_properties? {handles : Handles} {ts rest : List Token} {p : Properties}
    (h : properties? handles ts = some (p, rest)) :
    rest.length + (if p.isEmpty then 0 else 1) ≤ ts.length := by
  unfold properties? at h
  split at h
  all_goals
    simp only [Option.map_eq_some_iff, Option.some.injEq, Prod.mk.injEq] at h
    grind [Properties.isEmpty]

theorem rank_nodeUnless (ends : List Token) (block inMapping : Bool) (next : Goal)
    (ts : List Token) :
    rank (nodeUnless ends block inMapping next ts).goals
      (nodeUnless ends block inMapping next ts).tokens ≤ 2 + next.weight + 8 * ts.length := by
  unfold nodeUnless
  split <;> grind [rank, weights, weight]

theorem length_of_pastComma? {first : Bool} {ts rest : List Token}
    (h : pastComma? first ts = some rest) :
    rest.length + (if first then 0 else 1) ≤ ts.length := by
  unfold pastComma? at h
  split at h <;> grind

theorem rank_expandNode {handles : Handles} {block inMapping : Bool} {ts : List Token}
    {e : Expansion} (h : expandNode handles block inMapping ts = some e) :
    rank e.goals e.tokens < 2 + 8 * ts.length := by
  simp only [expandNode, Option.bind_eq_bind, Option.bind_eq_some_iff] at h
  obtain ⟨⟨p, rest⟩, hp, h⟩ := h
  have := length_of_properties? hp
  grind [rank, weights, weight]

theorem rank_expand {handles : Handles} {g : Goal} {ts : List Token} {e : Expansion}
    (h : g.expand handles ts = some e) :
    rank e.goals e.tokens < g.weight + 8 * ts.length := by
  unfold expand at h
  split at h
  all_goals
    grind [rank, weights, weight, → rank_expandNode, rank_nodeUnless, → length_of_pastComma?]

end Goal

/-- Meets goals until none is left. The events so far are given with the last first. -/
def readEvents (handles : Handles) (goals : List Goal) (ts : List Token)
    (events : List (Event String)) : Option (List (Event String) × List Token) :=
  match goals with
  | [] => some (events.reverse, ts)
  | g :: goals =>
    match _ : g.expand handles ts with
    | none => none
    | some e => readEvents handles (e.goals ++ goals) e.tokens (e.events.reverse ++ events)
termination_by Goal.rank goals ts
decreasing_by
  have := Goal.rank_expand ‹_›
  simp only [Goal.rank, Goal.weights_append, Goal.weights] at *
  omega

/-! ## Documents -/

/-- Whether a token stands in front of a document or behind it. -/
def Token.isBoundary : Token → Bool
  | .version _ _ => true
  | .tagHandle _ _ => true
  | .documentStart => true
  | .documentEnd => true
  | _ => false

/-- Reads directives. The version may be given once, and a handle explained once. -/
def handles? (versioned : Bool) (handles : Handles) : List Token → Option (Handles × List Token)
  | .version major minor :: ts =>
    if versioned || major ≠ 1 || (minor ≠ 1 && minor ≠ 2) then none else handles? true handles ts
  | .tagHandle handle start :: ts =>
    if (handles.lookup handle).isSome then none
    else handles? versioned ((handle, start) :: handles) ts
  | ts => some (handles ++ standardHandles, ts)

/-- The events of at most one document and the tokens behind it. A document may be blank if a
mark starts it, and must be started by one if directives stand in front of it. -/
def documentEvents? (tokens : List Token) : Option (List (Event String) × List Token) := do
  if tokens.isEmpty then return ([], [])
  let (handles, ts) ← handles? false [] tokens
  match ts with
  | .documentStart :: ts =>
    if ts.head?.all Token.isBoundary then return ([.blank], ts)
    else readEvents handles [.node true false] ts []
  | ts =>
    if ts.length < tokens.length then none else readEvents handles [.node true false] ts []

/-- The events of a text with at most one document, which marks of an end may follow. -/
def events? (text : String) : Option (List (Event String)) := do
  let (events, rest) ← documentEvents? (← tokens? text)
  if rest.all (· == .documentEnd) then return events else none

end Songsheet.Yaml
