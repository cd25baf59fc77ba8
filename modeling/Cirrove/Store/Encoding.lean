import Cirrove.Core
import Cirrove.Library.Json

/-!
# Stored text

What `serde_json::to_string` writes for a `Scope` (the key columns, whose length and
order matter to the invalidation reader) and for a `Node` (the `body` columns, whose
length is bounded while a listing is staged).
-/

namespace Cirrove

open Cirrove.Library

/-- A string value. -/
def encodeString (s : String) : String := String.ofList (Json.quoted s.toList)

/-- An optional value. -/
def encodeOption {α : Type} (encode : α → String) : Option α → String
  | none => "null"
  | some a => encode a

/-- `Store::key`: the serialised scope. -/
def Scope.encoded (s : Scope) : String :=
  String.ofList ("\x7b\"account\":".toList ++ (Json.quoted s.account.toList ++
    (",\"provider\":".toList ++ (Json.quoted s.provider.toList ++
    (",\"collection\":".toList ++ (Json.quoted s.collection.toList ++ ['}']))))))

def NodeKind.encoded : NodeKind → String
  | .file => "\"file\""
  | .folder => "\"folder\""
  | .shortcut => "\"shortcut\""

def RemoteRef.encoded (r : RemoteRef) : String :=
  "\x7b\"collection\":" ++ encodeString r.collection ++ ",\"item\":" ++ encodeString r.item ++
    ",\"kind\":" ++ encodeOption NodeKind.encoded r.kind ++ "\x7d"

/-- The `body` column of a node. The `package` field is written only when it is set. -/
def Node.encoded (n : Node) : String :=
  "\x7b\"id\":" ++ encodeString n.id ++
    ",\"parent_id\":" ++ encodeOption encodeString n.parentId ++
    ",\"name\":" ++ encodeString n.name ++
    ",\"kind\":" ++ n.kind.encoded ++
    ",\"size\":" ++ toString n.size ++
    ",\"modified_unix\":" ++ toString n.modifiedUnix ++
    ",\"etag\":" ++ encodeOption encodeString n.etag ++
    ",\"content_version\":" ++ encodeOption encodeString n.contentVersion ++
    ",\"target\":" ++ encodeOption RemoteRef.encoded n.target ++
    (if n.package then ",\"package\":true" else "") ++ "\x7d"

/-- The key of a scope determines it, so tables may be keyed by either. -/
theorem Scope.encoded_injective : Function.Injective Scope.encoded := by
  intro a b h
  have hlist := String.ofList_injective h
  obtain ⟨haccount, hrest⟩ := Json.quoted_append_inj (List.append_cancel_left hlist)
  obtain ⟨hprovider, hrest⟩ := Json.quoted_append_inj (List.append_cancel_left hrest)
  obtain ⟨hcollection, _⟩ := Json.quoted_append_inj (List.append_cancel_left hrest)
  cases a
  cases b
  simp only [Scope.mk.injEq]
  exact ⟨String.toList_injective haccount, String.toList_injective hprovider,
    String.toList_injective hcollection⟩

end Cirrove
