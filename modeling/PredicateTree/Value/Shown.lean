import PredicateTree.Value.Contents
import PredicateTree.Number.Decimal

/-!
# The text of values

`Value.shown` is the written form of a value, and `Node.text` the s-expression of a tree that
stands as a value.  To show a value can fail: an integer may be too long, an attribute that a tree
is named by may be broken, and a tree may be malformed.  A malformed tree inside a value shows as
its class name.  The class of an object may say how it is shown.

The children of a node are checked, all of them, before the first is shown.

A value is shown by recursion on it; what stands in the store, lists and objects, is shown by a
function `inside`, which follows so many of them into one another (`shownWithin`).  A container that
is being shown already is only hinted at.
-/

namespace PredicateTree

/-- The text of an integer, unless it has too many digits. -/
def intText (i : Int) : Except Fault String :=
  if i.natAbs < Nat.pow 10 Number.digitLimit then .ok (toString i)
  else .error (.failure (.tooManyDigits none))

/-- The items of a list between brackets. -/
def bracketed (opening closing : String) (items : List String) : String :=
  opening ++ ", ".intercalate items ++ closing

/-- The text of a tuple; a comma follows a single item. -/
def tupleText : List String → String
  | [a] => "(" ++ a ++ ",)"
  | items => bracketed "(" ")" items

/-- The text of a dictionary. -/
def dictText (entries : List String) : String := "\x7b" ++ ", ".intercalate entries ++ "\x7d"

/-- A line of a numbered list. -/
def numberedLine (i : Nat) (text : String) : String := "  " ++ toString i ++ ". " ++ text

/-- A parenthesised list of parts. -/
def grouped (parts : List String) : String := "(" ++ " ".intercalate parts ++ ")"

/-- The name of the `i`-th of several children. -/
def indexedField (field : String) (i : Nat) : String := field ++ "[" ++ toString i ++ "]"

/-- Whether what stands in a place of a child is a node, and a parameter where one is declared. -/
def isProperChild (declares : Bool) : Value → Bool
  | .node n => !declares || n.asParameter?.isSome
  | _ => false

/-- The fault of a node whose child under a field is not proper.  `shown` gives the text of the
child. -/
def strayFault (parent : Node) (field : String) (child : Value) (shown : Action String) :
    Action Fault := do
  match child with
  | .absent => return .malformed (.missingChild parent.className field) (.node parent)
  | .node _ => return .malformed (.notAParameter field (← shown)) (.node parent)
  | _ => return .malformed (.strayChild parent.className field (← shown)) (.node parent)

/-- Checks the child of a node under a field.  `shown` gives the text of the child. -/
def requireChild (parent : Node) (field : String) (declares : Bool) (child : Value)
    (shown : Action String) : Action Unit := do
  if isProperChild declares child then return ()
  else Action.raise (← strayFault parent field child shown)

/-- The text of a tree, or what stands for it where the tree is malformed. -/
def orMalformed (className : String) (text : Action Value) : Action Value :=
  Action.handle text fun fault =>
    if fault.errorClass.isSubclass .malformedTree then
      return .ofText ("<" ++ className ++ " (malformed)>")
    else Action.raise fault

/-- The text that a value answered with when it was asked under a special name. -/
def requireAnswer (name : String) (answer : Value) : Action String := do
  match answer with
  | .str _ s => return s
  | w => Action.fail (.answerNotText name (← Action.typeOf w))

/-- The text of a choice between types. -/
def unionText (naming : TypeNaming) (members : List StaticType) : String :=
  " | ".intercalate (members.map fun t => if t = .absent then "None" else t.fullName naming)

/-- Shows a value inside other things, which are given innermost first.  What an object answers need
not be a text. -/
abbrev ShowInside := List Value → Value → Action Value

/-- The written form of a value inside other things. -/
def ShowInside.text (inside : ShowInside) (path : List Value) (v : Value) : Action String := do
  requireAnswer "__repr__" (← inside path v)

/-- The text of a container, or a hint where the container is being shown already. -/
def unlessInside (path : List Value) (v : Value) (hint : String) (text : Action String) :
    Action String :=
  if path.any (·.identical v) then pure hint else text

/-- The plain text of a value, given the way in which it shows itself. -/
def plainOr (v : Value) (shown : Action Value) : Action String := do
  match v, v.enumerationMember? with
  | .str _ s, _ => return s
  | _, some (label, _) => return label
  | v, none =>
    match ← v.askSpecial "__str__" [] with
    | some w => requireAnswer "__str__" w
    | none => requireAnswer "__str__" (← shown)

/-- The text of a value as a part of another text, given its plain text. -/
def formattedOr (v : Value) (plain : Action String) : Action String := do
  match ← v.askSpecial "__format__" [.ofText ""] with
  | some (.str _ s) => return s
  | some w => Action.fail (.formatNotText (← Action.typeOf w))
  | none => plain

/-- The texts of several parts that are joined by blanks; the first one is the `i`-th. -/
def requireTexts (i : Nat) : List Value → Action (List String)
  | [] => return []
  | .str _ s :: vs => do return s :: (← requireTexts (i + 1) vs)
  | v :: _ => do Action.fail (.partNotText i (← Action.typeOf v))

/-- The plain text of a value that was read from the store.  A read-only dictionary has that of the
dictionary which it shows. -/
def plainInside (inside : ShowInside) (path : List Value) (v : Value) : Action String :=
  match v with
  | .mapping mark entries => inside.text path (.dict mark entries)
  | v => plainOr v (inside path v)

/-- The text of a value that was read from the store, as a part of another text. -/
def formattedInside (inside : ShowInside) (path : List Value) (v : Value) : Action String :=
  formattedOr v (plainInside inside path v)

/-! ### Texts of nodes

Each is made of the texts of the children; `formatted` gives the text of a part as a part of another
text. -/

/-- The text of access to a member of something. -/
def memberText (formatted : Value → Action String) (target name : Value) : Action Value := do
  let target ← formatted target
  return .ofText (target ++ "." ++ (← formatted name))

/-- The text of an operator over operands. -/
def operatorText (formatted : Value → Action String) (symbol : String) (operands : List Value) :
    Action Value := do
  return .ofText (grouped (symbol :: (← operands.mapM formatted)))

/-- The text of a conditional. -/
def choiceText (parts : List Value) : Action Value := do
  return .ofText (grouped ("if" :: (← requireTexts 0 parts)))

/-- The text of a call. -/
def callText (parts : List Value) : Action Value := do
  return .ofText (grouped (← requireTexts 0 parts))

/-- The text of a lambda. -/
def lambdaText (formatted : Value → Action String) (parameters : List Value) (body : Value) :
    Action Value := do
  let declared := grouped (← requireTexts 0 parameters)
  return .ofText (grouped ["lambda", declared, ← formatted body])

/-- How a value goes by as a literal: by the name that it has as a function, or else by its written
form. -/
def literalText (v : Value) (shown : Action String) : Action Value := do
  let s ← Action.store
  match v with
  | .object _ =>
    if v.isCallable s then
      match ← v.readAttribute? "__qualname__" with
      | some _ => v.readAttribute "__qualname__"
      | none => return .ofText (← shown)
    else return .ofText (← shown)
  | v =>
    match v.qualifiedNameIn s with
    | some name => return .ofText name
    | none => return .ofText (← shown)

mutual

/-- The written form of a value that stands inside other things. -/
def Value.shownBy (inside : ShowInside) (path : List Value) : Value → Action String
  | .absent => pure "None"
  | .bool b => pure (if b then "True" else "False")
  | .int _ i => intText i
  | .float _ x => pure (if x.isNaN then "nan" else Number.text x)
  | .str _ s => pure (Text.quoted s)
  | .list address => inside.text path (.list address)
  | .tuple mark items =>
    unlessInside path (.tuple mark items) "(...)" do
      return tupleText (← allShownBy inside (.tuple mark items :: path) items)
  | .dict mark entries =>
    unlessInside path (.dict mark entries) (dictText ["..."]) do
      return dictText (← entriesShownBy inside (.dict mark entries :: path) entries)
  | .mapping mark entries => do
    let text ← unlessInside path (.mapping mark entries) (dictText ["..."]) do
      return dictText (← entriesShownBy inside (.mapping mark entries :: path) entries)
    return "mappingproxy(" ++ text ++ ")"
  | .type t => do return t.shown (← Query.typeNames)
  | .union _ members => do return unionText (← Query.typeNames) members
  | .mathematics => pure "<module 'math' (built-in)>"
  | .named f => do
    let name := ((Value.named f).qualifiedNameIn (← Action.store)).getD ""
    let kind := if (Value.named f).fixedType = .builtin then "built-in function " else "function "
    return "<" ++ kind ++ name ++ ">"
  | .operator key => pure ("<built-in function " ++ key.functionName ++ ">")
  | .method _ _ _ m => pure ("<built-in method " ++ m.name ++ " of str object>")
  | .objectMethod m => do
    return "<function " ++ ((Value.objectMethod m).qualifiedNameIn (← Action.store)).getD "" ++ ">"
  | .bound _ receiver f => do
    let name := (f.qualifiedNameIn (← Action.store)).getD ""
    return "<bound method " ++ name ++ " of " ++ (← receiver.shownBy inside path) ++ ">"
  | .tracer mark nameMark name => do
    let f := Value.tracer mark nameMark name
    return "<function " ++ (f.qualifiedNameIn (← Action.store)).getD "" ++ ">"
  | .raiser mark error message => do
    let f := Value.raiser mark error message
    return "<function " ++ (f.qualifiedNameIn (← Action.store)).getD "" ++ ">"
  | .object address => inside.text path (.object address)
  | .binaryOp op => pure ("<BinaryOp." ++ op.label ++ ": '" ++ op.symbol ++ "'>")
  | .unaryOp op => pure ("<UnaryOp." ++ op.label ++ ": '" ++ op.symbol ++ "'>")
  | .nodeKind k => pure ("<NodeKind." ++ k.label ++ ": '" ++ k.symbol ++ "'>")
  | .node n => do requireAnswer "__repr__" (← orMalformed n.className (n.textBy inside path))
  | .closure mark ps body env => do
    let f := Value.closure mark ps body env
    return "<function " ++ (f.qualifiedNameIn (← Action.store)).getD "" ++ ">"
termination_by structural v => v

/-- The written forms of several values. -/
def allShownBy (inside : ShowInside) (path : List Value) : List Value → Action (List String)
  | [] => pure []
  | v :: vs => do return (← v.shownBy inside path) :: (← allShownBy inside path vs)
termination_by structural vs => vs

/-- The written forms of the entries of a dictionary. -/
def entriesShownBy (inside : ShowInside) (path : List Value) :
    List (Value × Value) → Action (List String)
  | [] => pure []
  | (k, v) :: rest => do
    let key ← k.shownBy inside path
    let value ← v.shownBy inside path
    return (key ++ ": " ++ value) :: (← entriesShownBy inside path rest)
termination_by structural es => es

/-- The text of the tree that a value should be. -/
def Value.treeTextBy (inside : ShowInside) (path : List Value) : Value → Action Value
  | .node n => n.textBy inside path
  | v => do Action.raise (.malformed (.notANode (← Action.typeOf v)) v)
termination_by structural v => v

/-- The texts of several trees. -/
def treeTextsBy (inside : ShowInside) (path : List Value) : List Value → Action (List Value)
  | [] => pure []
  | v :: vs => do return (← v.treeTextBy inside path) :: (← treeTextsBy inside path vs)
termination_by structural vs => vs

/-- Checks children of a node under one name, numbered from `i`. -/
def requireChildren (inside : ShowInside) (path : List Value) (parent : Node) (field : String)
    (declares : Bool) (i : Nat) : List Value → Action Unit
  | [] => pure ()
  | v :: vs => do
    requireChild parent (indexedField field i) declares v (v.shownBy inside path)
    requireChildren inside path parent field declares (i + 1) vs
termination_by structural vs => vs

/-- The s-expression of a tree.  It is a text, unless the tree is a literal or a parameter that goes
by a name which is none. -/
def Node.textBy (inside : ShowInside) (path : List Value) : Node → Action Value
  | .literal _ v _ => literalText v (v.shownBy inside path)
  | .parameter p => do return (← Action.store).parameterName p
  | .member mark expression name owner type =>
    if expression.isAbsent then do
      let shown ← owner.shownBy inside path
      let called := (← owner.readAttribute? "__name__").getD (.ofText shown)
      memberText (formattedInside inside path) called name
    else do
      let parent := Node.member mark expression name owner type
      requireChild parent "expression" false expression (expression.shownBy inside path)
      memberText (formattedInside inside path) (← expression.treeTextBy inside path) name
  | .unary mark op operand type => do
    let parent := Node.unary mark op operand type
    requireChild parent "operand" false operand (operand.shownBy inside path)
    let x ← operand.treeTextBy inside path
    operatorText (formattedInside inside path) op.symbol [x]
  | .binary mark op left right type => do
    let parent := Node.binary mark op left right type
    requireChild parent "left" false left (left.shownBy inside path)
    requireChild parent "right" false right (right.shownBy inside path)
    let a ← left.treeTextBy inside path
    let b ← right.treeTextBy inside path
    operatorText (formattedInside inside path) op.symbol [a, b]
  | .conditional mark test ifTrue ifFalse type => do
    let parent := Node.conditional mark test ifTrue ifFalse type
    requireChild parent "test" false test (test.shownBy inside path)
    requireChild parent "if_true" false ifTrue (ifTrue.shownBy inside path)
    requireChild parent "if_false" false ifFalse (ifFalse.shownBy inside path)
    let a ← test.treeTextBy inside path
    let b ← ifTrue.treeTextBy inside path
    let c ← ifFalse.treeTextBy inside path
    choiceText [a, b, c]
  | .call mark function row arguments type => do
    let parent := Node.call mark function row arguments type
    requireChild parent "function" false function (function.shownBy inside path)
    requireChildren inside path parent "arguments" false 0 arguments
    let f ← function.treeTextBy inside path
    let args ← treeTextsBy inside path arguments
    callText (f :: args)
  | .lambda mark row parameters body => do
    let parent := Node.lambda mark row parameters body
    requireChildren inside path parent "parameters" true 0 parameters
    requireChild parent "body" false body (body.shownBy inside path)
    let ps ← treeTextsBy inside path parameters
    let b ← body.treeTextBy inside path
    lambdaText (formattedInside inside path) ps b
  | .unknown mark kind =>
    Action.raise (.malformed (.unknownKind (Text.quoted kind)) (.node (.unknown mark kind)))
termination_by structural n => n

end

/-- The written forms of attributes. -/
def attributesShown (shown : Value → Action String) : Attributes → Action (List String)
  | [] => pure []
  | (a, v) :: rest => do
    let text ← shown v
    return (a ++ "=" ++ text) :: (← attributesShown shown rest)

/-- The written form of an object, which its class may give, that stands inside other things. -/
def objectShown (inside : ShowInside) (path : List Value) (v : Value) : Action Value := do
  let s ← Action.store
  let treeText (name : String) : Action String := do
    formattedInside inside path (← (← v.readAttribute name).treeTextBy inside path)
  match ← v.askSpecial "__repr__" [], s.typeOf v with
  | some w, _ => return w
  | none, .foldStep => do
    let before ← treeText "before"
    return .ofText (before ++ " → " ++ (← treeText "after"))
  | none, .foldTrace => do
    let first ← treeText "initial"
    let addLine (i : Nat) (lines : List String) (step : Value) : Action (List String) := do
      return numberedLine (i + 1) (← formattedInside inside path step) :: lines
    let lines ← (← (← v.readAttribute "steps").supply).fold addLine ["Initial: " ++ first]
    let last ← treeText "final"
    return .ofText ("\n".intercalate (("Final: " ++ last) :: lines).reverse)
  | none, .module => do
    let name ← inside.text path ((s.attribute? v "__name__").getD .absent)
    return .ofText ("<module " ++ name ++ ">")
  | none, .object => return .ofText "<object object>"
  | none, t => do
    let isOfCaller (t : StaticType) : Bool := match t with
      | .custom _ => true
      | _ => false
    if (s.lineage t).any isOfCaller then
      let parts ← attributesShown (inside.text path) (s.attributes v)
      return .ofText ((s.typeNames t).name ++ bracketed "(" ")" parts)
    else return .ofText ((s.typeNames t).name ++ "()")

/-- Shows what stands in the store, and follows so many things into one another. -/
def shownWithin : Nat → ShowInside
  | 0, _, _ => Action.fail (.nestedTooDeep "while getting the repr of an object")
  | fuel + 1, path, v =>
    match v with
    | .list address => do
      return .ofText (← unlessInside path v "[...]" do
        let items ← allShownBy (shownWithin fuel) (v :: path) (← Query.items address)
        return bracketed "[" "]" items)
    | .object _ => objectShown (shownWithin fuel) path v
    | .node n => orMalformed n.className (n.textBy (shownWithin fuel) path)
    | v => do return .ofText (← v.shownBy (shownWithin fuel) path)

/-- The written form of a value. -/
def Value.shown (v : Value) : Action String := v.shownBy (shownWithin Query.nesting) []

/-- The plain text of a value. -/
def Value.plain (v : Value) : Action String := plainInside (shownWithin Query.nesting) [] v

/-- The text of a value as a part of another text. -/
def Value.formatted (v : Value) : Action String := formattedInside (shownWithin Query.nesting) [] v

/-- The text of the tree that a value should be. -/
def Value.treeText (v : Value) : Action Value := v.treeTextBy (shownWithin Query.nesting) []

/-- The texts of several trees. -/
def treeTexts (vs : List Value) : Action (List Value) :=
  treeTextsBy (shownWithin Query.nesting) [] vs

/-- The s-expression of a tree. -/
def Node.text (n : Node) : Action Value := n.textBy (shownWithin Query.nesting) []

namespace Value

/-- The written form of a value, as a value. -/
def shownText (v : Value) : Action Value := do
  match v with
  | .bool _ => return .ofText (← v.shown)
  | .node (.parameter p) =>
    let _ ← v.shown
    return (← Action.store).parameterName p
  | v => Action.newText (← v.shown)

/-- The plain text of a value, as a value; that of a text is the text itself. -/
def plainText (v : Value) : Action Value := do
  match v with
  | .str .. => return v
  | .bool _ | .node _ => v.shownText
  | v => Action.newText (← v.plain)

end Value

end PredicateTree
