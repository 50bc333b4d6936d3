import GraphTransformation.Embedding

/-!
Rules for the attributes of replacement elements.

A rule gives one attribute its value when a production is applied, or removes
it. It reads the host graph as it was before, through the match.
-/

namespace GraphTransformation

/-- What a rule reads: the host before the production is applied, and the match. -/
structure RuleContext where
  host : Graph
  embedding : Embedding

/-- The attributes of the image of a pattern element. -/
def RuleContext.attributes? (ctx : RuleContext) (p : Element) : Option Attributes :=
  (ctx.embedding.image? p).bind ctx.host.attributes?

/-- An attribute of the image of a pattern element. -/
def RuleContext.attribute? (ctx : RuleContext) (p : Element) (name : String) : Option Value :=
  (ctx.attributes? p).bind (·.get? name)

/-- How one attribute of a replacement element is set. -/
inductive Rule where
  /-- Sets a constant. -/
  | set (value : Value)
  /-- Copies an attribute of the image of a pattern element; removes it if missing there. -/
  | copy (source : Element) (name : String)
  /-- Removes the attribute. -/
  | remove
  /-- Sets the value of a named function, or removes the attribute if there is none. -/
  | compute (name : String) (value : RuleContext → Option Value)

namespace Rule

/-- The pattern element that the rule copies from. -/
def source? : Rule → Option Element
  | .copy source _ => some source
  | _ => none

/-- The value the rule gives, if any. -/
def evaluate (ctx : RuleContext) : Rule → Option Value
  | .set value => some value
  | .copy source name => ctx.attribute? source name
  | .remove => none
  | .compute _ value => value ctx

/-- Sets the named attribute to the rule's value, or removes it. -/
def apply (ctx : RuleContext) (name : String) (attributes : Attributes) (rule : Rule) :
    Attributes :=
  match rule.evaluate ctx with
  | some value => attributes.insert name value
  | none => attributes.erase name

end Rule

end GraphTransformation
