import Cirrove.Google.Files
import Cirrove.Journal.Records
import Cirrove.Store.Encoding

/-!
# The upload contract

What providers and the transfer worker exchange (`cirrove-core/src/upload.rs`): the request for a
file of the journal, the steps a provider answers with and its errors. A checkpoint is text the
provider wrote and reads back; the request is part of it (`UploadRequest.encoded`).

Requests are those of ordinary file bytes: every adapter refuses the others before it looks at
anything else.
-/

namespace Cirrove.Upload

open Cirrove.Library
open Cirrove.Google (ProviderError)
open Cirrove.Journal (UploadIntent validDigest)

inductive UploadError where
  | provider (e : ProviderError)
  | conflict
  | quota
  | locked
  | sessionGone
  | checkpointInvalid
  | uncertain
  | unexpectedStatus (status : Nat)
  | invalid
  | unsupported (what : String)
  deriving DecidableEq, Repr

def protocol (message : String) : UploadError := .provider (.protocol message)

structure UploadRequest where
  scope : Scope
  intent : UploadIntent
  size : Nat
  sha256 : String
  deriving DecidableEq, Repr

/-- `UploadRequest::validate` -/
def UploadRequest.validate (r : UploadRequest) : Except UploadError Unit :=
  if !r.intent.validate then .error .invalid
  else if r.scope.account = "" ∨ r.scope.provider = "" ∨ r.scope.collection = "" ∨
      !validDigest r.sha256 then .error .invalid
  else .ok ()

/-- What a provider asks for next. Where a step has a checkpoint, it is stored before the next
call. -/
inductive UploadStep where
  | prepared (checkpoint : String)
  | continue (checkpoint : String) (offset length : Nat)
  | commit (checkpoint : String)
  | complete (node : Node)
  deriving DecidableEq, Repr

/-- `Reconciliation` -/
inductive Reconciliation where
  | committed (node : Node)
  | uncommitted
  | conflict
  deriving DecidableEq, Repr

/-! ## Requests as text -/

/-- The JSON text of an intent, with its tag first. -/
def encodeIntent : UploadIntent → List Char
  | .create parent name =>
    '\x7b' :: (Json.key "kind" ++ (Json.quoted "create".toList ++
      ',' :: (Json.key "parent" ++ (Json.quoted parent.toList ++
      ',' :: (Json.key "name" ++ (Json.quoted name.toList ++ ['\x7d']))))))
  | .replace item expectedEtag =>
    '\x7b' :: (Json.key "kind" ++ (Json.quoted "replace".toList ++
      ',' :: (Json.key "item" ++ (Json.quoted item.toList ++
      ',' :: (Json.key "expected_etag" ++ (Json.quoted expectedEtag.toList ++ ['\x7d']))))))

/-- The JSON text of a request. -/
def UploadRequest.encoded (r : UploadRequest) : List Char :=
  '\x7b' :: (Json.key "scope" ++ (r.scope.encoded.toList ++
    ',' :: (Json.key "intent" ++ (encodeIntent r.intent ++
    ',' :: (Json.key "size" ++ (Json.number r.size ++
    ',' :: (Json.key "sha256" ++ (Json.quoted r.sha256.toList ++ ['\x7d']))))))))

section

variable {r r' : List Char}

theorem scope_append_inj {a b : Scope} (h : a.encoded.toList ++ r = b.encoded.toList ++ r') :
    a = b ∧ r = r' := by
  have hassoc : ∀ a b c d e f r : List Char,
      (a ++ (b ++ (c ++ (d ++ (e ++ (f ++ ['}'])))))) ++ r =
        a ++ (b ++ (c ++ (d ++ (e ++ (f ++ ('}' :: r)))))) := by
    simp
  have hsplit : ∀ (s : Scope) (r : List Char), s.encoded.toList ++ r =
      "\x7b\"account\":".toList ++ (Json.quoted s.account.toList ++
        (",\"provider\":".toList ++ (Json.quoted s.provider.toList ++
        (",\"collection\":".toList ++ (Json.quoted s.collection.toList ++ ('}' :: r)))))) := by
    intro s r
    exact (congrArg (fun text => text ++ r) String.toList_ofList).trans (hassoc ..)
  rw [hsplit, hsplit] at h
  obtain ⟨haccount, h⟩ := Json.quoted_append_inj (List.append_cancel_left h)
  obtain ⟨hprovider, h⟩ := Json.quoted_append_inj (List.append_cancel_left h)
  obtain ⟨hcollection, h⟩ := Json.quoted_append_inj (List.append_cancel_left h)
  refine ⟨?_, (List.cons.inj h).2⟩
  cases a
  cases b
  simp only [Scope.mk.injEq]
  exact ⟨String.toList_injective haccount, String.toList_injective hprovider,
    String.toList_injective hcollection⟩

theorem intent_append_inj {a b : UploadIntent} (h : encodeIntent a ++ r = encodeIntent b ++ r') :
    a = b ∧ r = r' := by
  have hcreate : ∀ rest rest' : List Char, Json.quoted "create".toList ++ rest ≠
      Json.quoted "replace".toList ++ rest' := by
    intro rest rest' heq
    exact absurd (String.toList_injective (Json.quoted_append_inj heq).1) (by decide)
  cases a with
  | create parent name =>
    cases b with
    | create parent' name' =>
      simp only [encodeIntent, List.cons_append, List.append_assoc, List.cons.injEq, true_and,
        List.append_cancel_left_eq] at h
      obtain ⟨hparent, h⟩ := Json.quoted_append_inj h
      simp only [List.cons.injEq, true_and, List.append_cancel_left_eq] at h
      obtain ⟨hname, h⟩ := Json.quoted_append_inj h
      rw [String.toList_injective hparent, String.toList_injective hname]
      exact ⟨rfl, (List.cons.inj h).2⟩
    | replace item etag =>
      simp only [encodeIntent, List.cons_append, List.append_assoc, List.cons.injEq, true_and,
        List.append_cancel_left_eq] at h
      exact absurd h (hcreate _ _)
  | replace item etag =>
    cases b with
    | create parent name =>
      simp only [encodeIntent, List.cons_append, List.append_assoc, List.cons.injEq, true_and,
        List.append_cancel_left_eq] at h
      exact absurd h.symm (hcreate _ _)
    | replace item' etag' =>
      simp only [encodeIntent, List.cons_append, List.append_assoc, List.cons.injEq, true_and,
        List.append_cancel_left_eq] at h
      obtain ⟨hitem, h⟩ := Json.quoted_append_inj h
      simp only [List.cons.injEq, true_and, List.append_cancel_left_eq] at h
      obtain ⟨hetag, h⟩ := Json.quoted_append_inj h
      rw [String.toList_injective hitem, String.toList_injective hetag]
      exact ⟨rfl, (List.cons.inj h).2⟩

/-- A request is read back whatever text follows it. -/
theorem UploadRequest.encoded_append_inj {a b : UploadRequest}
    (h : a.encoded ++ r = b.encoded ++ r') : a = b ∧ r = r' := by
  simp only [encoded, List.cons_append, List.append_assoc, List.cons.injEq, true_and,
    List.append_cancel_left_eq] at h
  obtain ⟨hscope, h⟩ := scope_append_inj h
  simp only [List.cons.injEq, true_and, List.append_cancel_left_eq] at h
  obtain ⟨hintent, h⟩ := intent_append_inj h
  simp only [List.cons.injEq, true_and, List.append_cancel_left_eq] at h
  obtain ⟨hsize, h⟩ := Json.number_append_inj (by decide) (by decide) h
  simp only [List.cons.injEq, true_and, List.append_cancel_left_eq] at h
  obtain ⟨hsha, h⟩ := Json.quoted_append_inj h
  refine ⟨?_, (List.cons.inj h).2⟩
  cases a
  cases b
  simp only [UploadRequest.mk.injEq]
  exact ⟨hscope, hintent, hsize, String.toList_injective hsha⟩

end

end Cirrove.Upload
