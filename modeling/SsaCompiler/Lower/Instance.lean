/-
# Instances of templates

A template is made concrete by lowering its members and methods while its parameters stand
for the arguments. The new type is known before its members are, so that a member may point
to the type under construction. Instances with the same arguments are one type.
-/

import SsaCompiler.Lower.DynamicArray

namespace SsaCompiler

namespace Lower

/-- Lets names stand for types, in order, and answers with what they hide. -/
def bindPlaceholders : List (Name × TypeId) → Lower (List (Name × Shadowed))
  | [] => return []
  | (name, ty) :: rest => do
    let (hidden, table) := (← symbols).bindPlaceholder name ty
    modifySymbols fun _ => table
    return (name, hidden) :: (← bindPlaceholders rest)

/-- Takes placeholders away, the last one first. -/
def unbindPlaceholders : List (Name × Shadowed) → Lower Unit
  | [] => return ()
  | (name, hidden) :: rest => do
    unbindPlaceholders rest
    modifySymbols (·.unbindPlaceholder name hidden)

/-- Runs something as a walk of its own. If that walk ends early, so does this one. -/
def asNewPass (body : Lower Unit) : Lower Unit := do
  let outer := (← get).pass
  let thisName ← intern "this"
  modifyPass fun _ => .new thisName
  body
  let fatal := (← get).pass.fatal
  modifyPass fun _ => outer
  match fatal with
  | some e => abandon e
  | none => return ()

/-- Adds a template of the program. -/
def registerTemplate (decl : TemplateDecl Node) (span : Span) : Lower Unit := do
  match ← func with
  | some _ => report .structural "templates must be declared at module scope" span
  | none =>
    let template : Template := ⟨decl.name, decl.params, .declared decl.members decl.methods⟩
    match (← get).context.templates.insert template with
    | some table => modifyContext fun c => { c with templates := table }
    | none =>
      let text ← nameText decl.name
      let count := decl.params.length
      report .structural s!"template '{text}' with {count} parameters is already declared" span

/-- Remembers the type of a template with arguments. -/
def recordInstance (name : Name) (args : List TypeId) (ty : TypeId) : Lower Unit :=
  modifyContext fun c => { c with templates := c.templates.recordInstance name args ty }

end Lower

namespace Recur

variable (r : Recur)

/-- Gives a type the members and methods of a template that the program declares. -/
def fillDeclared (ty : TypeId) (template : Template) (members : List Field)
    (methods : List (Option Node)) (args : List TypeId) (span : Span) : Lower Unit := do
  let shadowed ← Lower.bindPlaceholders (template.params.zip args)
  let here ← Lower.position
  Lower.asNewPass do
    r.layout ty members span
    r.declareMembers ty methods
    r.defineMembers methods
  Lower.unbindPlaceholders shadowed
  Build.restorePosition here

/-- Gives a new type the members and methods of its template. -/
def fillInstance (ty : TypeId) (canonical : String) (template : Template)
    (args : List TypeId) (span : Span) : Lower Unit := do
  match template.body with
  | .dynamicArray =>
    match args with
    | elem :: _ => DynamicArray.build ty elem
    | [] => Lower.abandon (.missingBlueprint canonical)
  | .declared members methods => r.fillDeclared ty template members methods args span

/-- The type of a template with arguments that has not been asked for before. An object of
the same spelling stands in for it. -/
def newInstance (name : Name) (args : List TypeId) (template : Template) (span : Span) :
    Lower TypeId := do
  let text ← Lower.nameText name
  let argTexts ← args.mapM Lower.describe
  let canonical := text ++ "<" ++ ",".intercalate argTexts ++ ">"
  let canonicalName ← Lower.intern canonical
  match (← Lower.symbols).object? canonicalName with
  | some info =>
    Lower.recordInstance name args info.ty
    return info.ty
  | none =>
    let ty ← Build.namedStruct canonical
    Lower.modifySymbols (·.declareObject (.new canonicalName ty))
    Lower.recordInstance name args ty
    r.fillInstance ty canonical template args span
    return ty

/-- The type of a template with arguments, made on first use. -/
def instanceOf (name : Name) (args : List TypeId) (span : Span) : Attempt TypeId := do
  let templates := (← get).context.templates
  match templates.instance? name args with
  | some ty => return ty
  | none =>
    let text ← Lower.nameText name
    match templates.get? name args.length with
    | some template => r.newInstance name args template span
    | none =>
      let count := args.length
      if templates.hasName name then
        Attempt.reject .typeMismatch s!"template '{text}' does not take {count} type arguments"
          span
      else Attempt.reject .unresolvedName s!"unknown template '{text}'" span

end Recur

end SsaCompiler
