import SyntaxMining.Forest.Rows

/-!
# Sessions

A session names the nodes of a forest by handles, given out in the order in which nodes become
known.  Rebuilding a node gives handles to those nodes of the result that had none, in pre-order.
-/

namespace SyntaxMining

structure Session where
  forest : Forest
  handles : Array NodeId
deriving Inhabited

namespace Session

def empty : Session :=
  ⟨Forest.empty, #[]⟩

/-- Node of a handle; handles that were never given out name no node. -/
def nodeOf (session : Session) (handle : Nat) : NodeId :=
  session.handles.getD handle session.forest.size

def handleOf? (session : Session) (id : NodeId) : Option Nat :=
  session.handles.toList.findIdx? (· == id)

def member (session : Session) (handle : Nat) : Forest.Member :=
  ⟨session.forest, session.nodeOf handle⟩

/-- Gives handles to those nodes that have none. -/
def register (session : Session) (ids : List NodeId) : Session :=
  ids.foldl
    (fun session id ↦
      if (session.handleOf? id).isSome then session
      else { session with handles := session.handles.push id })
    session

/-- Adds a node; also gives its handle. -/
def add (session : Session) (entry : Entry) (parent : Option Nat) : Session × Nat :=
  let added := session.forest.add entry (parent.map session.nodeOf)
  (⟨added.1, session.handles.push added.2⟩, session.handles.size)

/-- Adds the nodes of a tree; also gives its root. -/
def plant (session : Session) (tree : SyntaxTree) : Session × NodeId :=
  let planted := session.forest.plant none tree
  ((⟨planted.1, session.handles⟩ : Session).register (planted.1.preorder planted.2), planted.2)

def setChildren (session : Session) (handle : Nat) (children : List Nat) : Session :=
  { session with
    forest := session.forest.setChildren (session.nodeOf handle) (children.map session.nodeOf) }

def setParent (session : Session) (handle : Nat) (parent : Option Nat) : Session :=
  { session with
    forest := session.forest.setParent (session.nodeOf handle) (parent.map session.nodeOf) }

def setToken (session : Session) (handle : Nat) (token : Option String) : Session :=
  { session with forest := session.forest.setToken (session.nodeOf handle) token }

/-- Removes the chains below a node; also gives the node's successor. -/
def rebuild (session : Session) (mode : Mode) (handle : Nat) :
    Except Forest.RebuildError (Session × NodeId) :=
  match session.forest.rebuild mode (session.nodeOf handle) with
  | .error e => .error e
  | .ok (forest, root) =>
    .ok ((⟨forest, session.handles⟩ : Session).register (forest.preorder root), root)

end Session

end SyntaxMining
