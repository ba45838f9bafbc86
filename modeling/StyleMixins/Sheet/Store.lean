import StyleMixins.Sheet.Parse
import StyleMixins.Tree.Relink

namespace StyleMixins

namespace Tree

mutual

/-- Adds a statement as the last child of a node, and then what stands in its block. -/
def addStatement (t : Tree) (parent : NodeId) : Element → Tree
  | .mk kind source block =>
    match t.addChild parent kind source with
    | (t, id) => t.addStatements id block

def addStatements (t : Tree) (parent : NodeId) : List Element → Tree
  | [] => t
  | e :: rest => (t.addStatement parent e).addStatements parent rest

end

end Tree

namespace Sheet

def store (sheet : Element) : Tree :=
  match (⟨#[]⟩ : Tree).create sheet.kind sheet.source with
  | (t, id) => t.addStatements id sheet.children

def parseTree (file : SourceText) : Except Error Tree :=
  (parse file).map store

end Sheet

end StyleMixins
