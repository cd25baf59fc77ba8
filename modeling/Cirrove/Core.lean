import Mathlib.Algebra.GroupWithZero.Nat
import Mathlib.Data.List.Basic

/-!
# Provider-neutral metadata

The records every component shares (`cirrove-core/src/lib.rs`). Paths are
presentation, identities are strings chosen by the provider.
-/

namespace Cirrove

/-- One independently tracked collection of one account. -/
structure Scope where
  account : String
  provider : String
  collection : String
  deriving DecidableEq, Repr

/-- What a provider says an item is. -/
inductive NodeKind where
  | file
  | folder
  | shortcut
  deriving DecidableEq, Repr

/-- The target of a link across collections. -/
structure RemoteRef where
  collection : String
  item : String
  kind : Option NodeKind
  deriving DecidableEq, Repr

/-- Whether a revision is a content tag or an ETag. The two never compare equal. -/
inductive RevisionSpace where
  | content
  | etag
  deriving DecidableEq, Repr

/-- Metadata of one item. -/
structure Node where
  id : String
  parentId : Option String
  name : String
  kind : NodeKind
  size : Nat
  modifiedUnix : Nat
  etag : Option String
  contentVersion : Option String
  target : Option RemoteRef
  package : Bool
  deriving DecidableEq, Repr

/-- The content tag if there is a non-empty one, else the non-empty ETag. -/
def Node.contentRevision (n : Node) : Option (RevisionSpace × String) :=
  ((n.contentVersion.filter (· ≠ "")).map (fun tag => (.content, tag))).or
    ((n.etag.filter (· ≠ "")).map (fun tag => (.etag, tag)))

/-- One change of a feed. -/
inductive Change where
  | upsert (node : Node)
  | delete (id : String)
  deriving DecidableEq, Repr

/-- The item a change is about. -/
def Change.id : Change → String
  | .upsert node => node.id
  | .delete id => id

/-- The metadata a change leaves behind. -/
def Change.body : Change → Option Node
  | .upsert node => some node
  | .delete _ => none

/-- Opaque pagination material of a provider. -/
structure Cursor where
  value : String
  deriving DecidableEq, Repr

/-- Where a page of a feed ends. -/
inductive Checkpoint where
  | continue (cursor : Cursor)
  | complete (cursor : Cursor)
  deriving DecidableEq, Repr

def Checkpoint.cursor : Checkpoint → Cursor
  | .continue c => c
  | .complete c => c

def Checkpoint.isComplete : Checkpoint → Bool
  | .continue _ => false
  | .complete _ => true

/-- One page of a feed. -/
structure ChangePage where
  changes : List Change
  checkpoint : Checkpoint
  deriving DecidableEq, Repr

/-- One page of a foreground directory listing. -/
structure DirectoryPage where
  nodes : List Node
  next : Option Cursor
  deriving DecidableEq, Repr

end Cirrove
