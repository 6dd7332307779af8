import CharacterRules.Note.Clause
import CharacterRules.Note.Target

/-!
The compilation of the notes of a trait into rules. Each note becomes an attribute of its own that
depends on the feature of the trait, and each clause with a known phrasing adds further rules.
Changes of one attribute by one trait are merged into a single rule.
-/

namespace CharacterRules.Note

/-- What a change contributes: a constant, or its source times a factor. -/
inductive Amount where
  | literal (n : Number)
  | scaled (factor : Number)
  deriving DecidableEq

/-- A change of an attribute that waits to be merged. -/
structure PendingDelta where
  target : String
  source : String
  op : Operator
  amount : Amount
  deriving DecidableEq

namespace PendingDelta

/-- Whether two changes have the same target, source and operator. -/
def sameSlot (a b : PendingDelta) : Bool :=
  a.target == b.target && a.source == b.source && a.op == b.op

/-- The amount of two changes in one: constants are summed, or multiplied for a multiplication, and
factors are summed. Amounts that do not fit leave the first. -/
def mergeAmounts (op : Operator) (a b : Amount) : Amount :=
  match op, a, b with
  | .multiply, .literal m, .literal n => .literal (m * n)
  | .multiply, a, _ => a
  | _, .literal m, .literal n => .literal (m + n)
  | _, .scaled m, .scaled n => .scaled (m + n)
  | _, a, _ => a

/-- Adds a change to those that wait. -/
def push (d : PendingDelta) : List PendingDelta → List PendingDelta
  | [] => [d]
  | e :: rest =>
    if e.sameSlot d then { e with amount := mergeAmounts e.op e.amount d.amount } :: rest
    else e :: push d rest

/-- The formula of a change. -/
def formula (d : PendingDelta) : Formula :=
  match d.amount with
  | .literal n => .literal (.number n)
  | .scaled k =>
    if k == 1 then .passThrough
    else .expr (.binary .mul (.ident "source") (.literal (.number k)))

/-- The rule of a change. -/
def rule (d : PendingDelta) : Rule := ⟨d.target, d.source, d.op, d.formula⟩

end PendingDelta

/-- The phrasings that a compiler knows. -/
inductive Phrasing where
  | count
  | expression
  | delta
  deriving DecidableEq

/-- The phrasings of the standard compiler; the first that fits a clause is used. -/
def standardPhrasings : List Phrasing := [.count, .expression, .delta]

/-- The compilation of a trait: the graph so far, and the changes that wait. -/
structure Progress where
  graph : RuleGraph
  deltas : List PendingDelta

/-- The note under compilation: its key, the feature it depends on, and the number of its next
placeholder. -/
structure Context where
  key : String
  feature : String
  next : Nat

namespace Context

/-- The source and amount that an amount text stands for; digits that are no number are zero. -/
def amount (c : Context) : AmountText → String × Amount
  | .digits text => (c.feature, .literal ((Number.ofText? text).getD 0))
  | .reference 'V' => (c.key, .scaled 1)
  | .reference mark => (c.key ++ "." ++ String.singleton mark, .scaled 1)

end Context

def Amount.negate : Amount → Amount
  | .literal n => .literal (-n)
  | .scaled k => .scaled (-k)

/-- The change that a clause words, if its phrase names an attribute. -/
def Context.pending? (c : Context) (names : TargetNames) (g : RuleGraph) (d : Delta) :
    Option PendingDelta :=
  (names.canonicalize g d.phrase).map fun target =>
    let (source, amount) := c.amount d.amount
    match d.change with
    | .increase => ⟨target, source, .add, amount⟩
    | .decrease => ⟨target, source, .add, amount.negate⟩
    | .multiply => ⟨target, source, .multiply, amount⟩

namespace Progress

/-- Adds a change that waits. -/
def pushDelta (p : Progress) (d : PendingDelta) : Progress :=
  { p with deltas := d.push p.deltas }

/-- Adds the change of a clause, if it words one of a known attribute. -/
def applyDelta (p : Progress) (names : TargetNames) (c : Context) (clause : List Char) :
    Progress :=
  match (readDelta? clause).bind (c.pending? names p.graph) with
  | some d => p.pushDelta d
  | none => p

end Progress

/-- The rules of a placeholder: its number holds the expression once the feature and one of the
attributes that it reads are there. -/
def placeholderRules (part feature : String) (e : Expr) : List Rule :=
  let sources := (Std.TreeSet.ofList e.references).toList
  ⟨part, feature, .gate, .passThrough⟩ ::
    (if sources.isEmpty then [feature] else sources).map fun s => ⟨part, s, .set, .expr e⟩

/-- Registers the placeholders among the pieces of a clause. The result has the clause with numbers
in place of the placeholders; it is missing if one of them is no formula, and the placeholders behind
that one keep their numbers. -/
def Progress.placeholders (p : Progress) (c : Context) :
    List Piece → Progress × Context × Option (List Char)
  | [] => (p, c, some [])
  | .text s :: rest =>
    let (p, c, clause) := p.placeholders c rest
    (p, c, clause.map (s.toList ++ ·))
  | .placeholder expression :: rest =>
    let number := c.next
    let c := { c with next := c.next + 1 }
    match Formula.parse expression with
    | .error _ => (p, c, none)
    | .ok e =>
      let rules := placeholderRules (partKey c.key number) c.feature e
      let p := { p with graph := p.graph.defineAll rules }
      let (p, c, clause) := p.placeholders c rest
      (p, c, clause.map (('%' :: (toString number).toList) ++ ·))

/-- Compiles a clause by one phrasing, if the clause has it. -/
def Phrasing.compile? (phrasing : Phrasing) (names : TargetNames) (p : Progress) (c : Context)
    (clause : List Char) : Option (Progress × Context) :=
  match phrasing with
  | .count =>
    (readCount? clause).map fun (text, counted) =>
      let target := match counted with
        | .powers => "powerCount"
        | .powerPoints => "powerPoints"
      let (source, amount) := c.amount text
      (p.pushDelta ⟨target, source, .add, amount⟩, c)
  | .expression =>
    if hasPlaceholder clause then
      let (p, c, clause) := p.placeholders c (pieces clause)
      -- a clause with a placeholder that is no formula words no change
      some (clause.elim p (p.applyDelta names c), c)
    else none
  | .delta =>
    if (readDelta? clause).isSome then some (p.applyDelta names c clause, c) else none

/-- Compiles a clause by the first phrasing that it has; without one it is only shown. -/
def compileClause (phrasings : List Phrasing) (names : TargetNames) (p : Progress) (c : Context)
    (clause : List Char) : Progress × Context :=
  (phrasings.findSome? fun f => f.compile? names p c clause).getD (p, c)

/-- The clauses of a note that say something, without white space around them. -/
def clausesOf (note : String) : List (List Char) :=
  ((splitSlashes 0 note.toList).map Text.trimChars).filter fun clause => !clause.isEmpty

/-- Whether a note shows its own value, which other rules then provide. -/
def showsValue (note : String) : Bool := Text.occursIn ['%', 'V'] note.toList

def compileNote (phrasings : List Phrasing) (names : TargetNames) (name feature : String)
    (p : Progress) (category note : String) : Progress :=
  let key := noteKey category name
  -- the value that a note shows comes from another rule, which the feature then only gates
  let op := if showsValue note then Operator.gate else .set
  let g := (p.graph.define ⟨key, feature, op, .passThrough⟩).defineNote key note
  let start : Progress × Context :=
    ({ p with graph := g }, ⟨key, feature, firstPlaceholder note.toList⟩)
  ((clausesOf note).foldl (fun (p, c) clause => compileClause phrasings names p c clause) start).1

/-- Compiles the notes of a trait, each with its section. -/
def compileNotes (phrasings : List Phrasing) (g : RuleGraph) (names : TargetNames) (name : String)
    (notes : List (String × String)) : RuleGraph :=
  let p := notes.foldl
    (fun p (category, note) =>
      compileNote phrasings names name ("features." ++ name) p category note) ⟨g, []⟩
  -- the changes wait for the last note, so that changes of one slot merge across notes
  p.graph.defineAll (p.deltas.map PendingDelta.rule)

/-- Compiles the notes of a trait, one in each section. -/
def compileFeature (phrasings : List Phrasing) (g : RuleGraph) (names : TargetNames)
    (name : String) (sections notes : List String) : Except ContentError RuleGraph :=
  if sections.length ≠ notes.length then
    .error (.mismatchedNotes name sections.length notes.length)
  else .ok (compileNotes phrasings g names name (sections.zip notes))

end CharacterRules.Note
