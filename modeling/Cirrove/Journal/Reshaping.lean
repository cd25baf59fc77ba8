import Cirrove.Journal.Index
import Mathlib.Logic.Relation

/-!
# Objects and their working files

An object and its working file are two rows about one file. `Reshapes` is how transactions change
them: an object is stored together with the row of its file, or without touching it. `Agrees` is
what this keeps: the two rows never disagree.
-/

namespace Cirrove.Journal

open Cirrove.Library

variable {j j' : UploadJournal}

/-- The slot that the working file of an object keeps. -/
def NamespaceObject.fileSlot (lowercase : String → String) (o : NamespaceObject) : Option Slot :=
  if o.unlinked then none else o.slot lowercase

/-- The row of a working file says what its object says. -/
structure Matches (lowercase : String → String) (o : NamespaceObject) (row : WorkingRow) : Prop where
  scope : row.body.scope = o.scope
  node : row.body.node = o.node
  unlinked : row.body.unlinked = o.unlinked
  latest : row.body.latest = o.latest
  slot : row.slot = o.fileSlot lowercase

/-- Nothing of an object that its working file repeats has changed. -/
structure NamespaceObject.SameFile (old new : NamespaceObject) : Prop where
  workingFile : new.workingFile = old.workingFile
  scope : new.scope = old.scope
  names : new.names = old.names
  node : new.node = old.node
  unlinked : new.unlinked = old.unlinked
  latest : new.latest = old.latest

/-- What storing `o` does to the working files. -/
inductive FileKept (j j' : UploadJournal) (o : NamespaceObject) : Prop where
  /-- The object has no bytes of its own, or gives them up. -/
  | without (hnone : o.workingFile = none)
      (hfiles : ∀ w, j'.workingFiles.get w = j.workingFiles.get w ∨
        ∃ row, j.names.objects.get o.id = some row ∧ row.body.workingFile = some w)
  /-- The row of the file is written too. -/
  | written {w : Uuid} {row : WorkingRow} (hw : o.workingFile = some w)
      (hrow : j'.workingFiles.get w = some row) (hmatches : Matches j.settings.lowercase o row)
      (hothers : ∀ x, x ≠ w → j'.workingFiles.get x = j.workingFiles.get x)
  /-- The row of the file is written too, in the slot it has. -/
  | kept {w : Uuid} {old row : WorkingRow} {before : ObjectRow}
      (hold : j.workingFiles.get w = some old) (hbefore : j.names.objects.get o.id = some before)
      (hw : before.body.workingFile = some w) (hw' : o.workingFile = some w)
      (hrow : j'.workingFiles.get w = some row)
      (hmatches : Matches j.settings.lowercase before.body old → Matches j.settings.lowercase o row)
      (hothers : ∀ x, x ≠ w → j'.workingFiles.get x = j.workingFiles.get x)
  /-- The row of the file still says what the object says. -/
  | same {row : ObjectRow} (hrow : j.names.objects.get o.id = some row)
      (hsame : row.body.SameFile o) (hfiles : j'.workingFiles = j.workingFiles)

/-- One change of the names and the working files. -/
inductive Reshapes : UploadJournal → UploadJournal → Prop where
  | same {j j' : UploadJournal} (hsettings : j'.settings = j.settings)
      (hnames : j'.names = j.names) (hfiles : j'.workingFiles = j.workingFiles) : Reshapes j j'
  | configure {j j' : UploadJournal} {scopes : Table Scope NamespaceNames}
      (hsettings : j'.settings = j.settings) (hnames : j'.names = { j.names with scopes := scopes })
      (hscopes : ∀ scope names, j.names.scopes.get scope = some names →
        scopes.get scope = some names)
      (hfiles : j'.workingFiles = j.workingFiles) : Reshapes j j'
  | forget {j j' : UploadJournal} {operations : Table Uuid Uuid}
      (hsettings : j'.settings = j.settings)
      (hnames : j'.names = { j.names with operations := operations })
      (hoperations : ∀ p id, operations.get p = some id → j.names.operations.get p = some id)
      (hfiles : j'.workingFiles = j.workingFiles) : Reshapes j j'
  | store {j j' : UploadJournal} {o : NamespaceObject} (hsettings : j'.settings = j.settings)
      (hstored : Stored j.settings.lowercase j.names j'.names o)
      (hscope : (j.names.scopes.get o.scope).isSome = true) (hfile : FileKept j j' o) : Reshapes j j'

/-- Some changes of the names and the working files. -/
def Reshaped : UploadJournal → UploadJournal → Prop := Relation.ReflTransGen Reshapes

theorem Reshaped.refl (j : UploadJournal) : Reshaped j j := Relation.ReflTransGen.refl

theorem Reshaped.trans {j₁ : UploadJournal} (h₁ : Reshaped j j₁) (h₂ : Reshaped j₁ j') :
    Reshaped j j' := Relation.ReflTransGen.trans h₁ h₂

theorem Reshaped.of_same (hsettings : j'.settings = j.settings) (hnames : j'.names = j.names)
    (hfiles : j'.workingFiles = j.workingFiles) : Reshaped j j' :=
  Relation.ReflTransGen.single (.same hsettings hnames hfiles)

theorem Reshaped.of_store {o : NamespaceObject} (hsettings : j'.settings = j.settings)
    (hstored : Stored j.settings.lowercase j.names j'.names o)
    (hscope : (j.names.scopes.get o.scope).isSome = true) (hfile : FileKept j j' o) :
    Reshaped j j' := Relation.ReflTransGen.single (.store hsettings hstored hscope hfile)

/-- An object without bytes of its own is stored, and the working files stay. -/
theorem FileKept.of_none {o : NamespaceObject} (hnone : o.workingFile = none)
    (hfiles : j'.workingFiles = j.workingFiles) : FileKept j j' o :=
  .without hnone (fun _ => .inl (by rw [hfiles]))

/-! ## Agreement -/

/-- Every object that has a working file agrees with it. -/
def Agrees (j : UploadJournal) : Prop :=
  ∀ id row w, j.names.objects.get id = some row → row.body.workingFile = some w →
    ∃ file, j.workingFiles.get w = some file ∧ Matches j.settings.lowercase row.body file

theorem Matches.sameFile {lowercase : String → String} {old new : NamespaceObject}
    {row : WorkingRow} (h : Matches lowercase old row) (hsame : old.SameFile new) :
    Matches lowercase new row where
  scope := h.scope.trans hsame.scope.symm
  node := h.node.trans hsame.node.symm
  unlinked := h.unlinked.trans hsame.unlinked.symm
  latest := h.latest.trans hsame.latest.symm
  slot := by
    rw [h.slot, NamespaceObject.fileSlot, NamespaceObject.fileSlot, hsame.unlinked,
      NamespaceObject.slot, NamespaceObject.slot, hsame.node, hsame.scope, hsame.names]

/-- One change keeps the agreement. -/
theorem Reshapes.agrees (h : Reshapes j j') (hindex : j.names.Indexed j.settings.lowercase)
    (hagrees : Agrees j) : Agrees j' := by
  cases h with
  | same hsettings hnames hfiles =>
    intro id row w hrow hw
    rw [hnames] at hrow
    rw [hfiles, hsettings]
    exact hagrees id row w hrow hw
  | configure hsettings hnames _ hfiles =>
    intro id row w hrow hw
    rw [hnames] at hrow
    rw [hfiles, hsettings]
    exact hagrees id row w hrow hw
  | forget hsettings hnames _ hfiles =>
    intro id row w hrow hw
    rw [hnames] at hrow
    rw [hfiles, hsettings]
    exact hagrees id row w hrow hw
  | @store o hsettings hstored _ hfile =>
    intro id row w hrow hw
    rw [hsettings]
    by_cases hid : id = o.id
    · subst hid
      rw [hstored.self] at hrow
      cases hrow
      simp only at hw
      cases hfile with
      | without hnone _ =>
        rw [hnone] at hw
        cases hw
      | written hw' hfile hmatches _ =>
        rw [hw'] at hw
        cases hw
        exact ⟨_, hfile, hmatches⟩
      | kept hold hbefore hw' hw'' hfile hmatches _ =>
        rw [hw''] at hw
        cases hw
        obtain ⟨file, hget, hmatched⟩ := hagrees _ _ w hbefore hw'
        rw [hold] at hget
        cases hget
        exact ⟨_, hfile, hmatches hmatched⟩
      | same hold hsame hfiles =>
        obtain ⟨file, hget, hmatches⟩ := hagrees _ _ w hold (hsame.workingFile.symm.trans hw)
        exact ⟨file, by rw [hfiles]; exact hget, hmatches.sameFile hsame⟩
    · -- No other object shares the file.
      rw [hstored.others id hid] at hrow
      obtain ⟨file, hget, hmatches⟩ := hagrees id row w hrow hw
      refine ⟨file, ?_, hmatches⟩
      cases hfile with
      | without _ hfiles =>
        rcases hfiles w with hsame | ⟨old, hold, hshared⟩
        · rw [hsame]
          exact hget
        · exact absurd (hindex.working hrow hold (by rw [hw]; rfl) (hw.trans hshared.symm)) hid
      | @written w' _ hw' _ _ hothers =>
        have hne : w ≠ w' := by
          rintro rfl
          exact hstored.working (by rw [hw']; rfl) id row hid hrow (hindex.key hrow)
            (hw.trans hw'.symm)
        rw [hothers w hne]
        exact hget
      | @kept w' _ _ _ _ _ _ hw' _ _ hothers =>
        have hne : w ≠ w' := by
          rintro rfl
          exact hstored.working (by rw [hw']; rfl) id row hid hrow (hindex.key hrow)
            (hw.trans hw'.symm)
        rw [hothers w hne]
        exact hget
      | same _ _ hfiles =>
        rw [hfiles]
        exact hget

theorem Reshapes.indexed (h : Reshapes j j') (hindex : j.names.Indexed j.settings.lowercase) :
    j'.names.Indexed j'.settings.lowercase := by
  cases h with
  | same hsettings hnames _ =>
    rw [hsettings, hnames]
    exact hindex
  | configure hsettings hnames hscopes _ =>
    rw [hsettings, hnames]
    exact hindex.setScopes hscopes
  | forget hsettings hnames hoperations _ =>
    rw [hsettings, hnames]
    exact hindex.forget hoperations
  | store hsettings hstored hscope _ =>
    rw [hsettings]
    exact hindex.store hstored hscope

/-- A scope that has a policy keeps it. -/
theorem Reshaped.scopes (h : Reshaped j j') {scope : Scope} {names : NamespaceNames}
    (hnames : j.names.scopes.get scope = some names) : j'.names.scopes.get scope = some names := by
  induction h with
  | refl => exact hnames
  | tail _ hnext ih =>
    cases hnext with
    | same _ hsame _ =>
      rw [hsame]
      exact ih
    | configure _ hsame hscopes _ =>
      rw [hsame]
      exact hscopes scope names ih
    | forget _ hsame _ _ =>
      rw [hsame]
      exact ih
    | store _ hstored _ _ =>
      rw [hstored.scopes]
      exact ih

/-- The agreement is kept by whole transactions. -/
theorem Reshaped.agrees (h : Reshaped j j') (hindex : j.names.Indexed j.settings.lowercase)
    (hagrees : Agrees j) : Agrees j' := by
  have hboth : j'.names.Indexed j'.settings.lowercase ∧ Agrees j' := by
    induction h with
    | refl => exact ⟨hindex, hagrees⟩
    | tail _ hnext ih => exact ⟨hnext.indexed ih.1, hnext.agrees ih.1 ih.2⟩
  exact hboth.2

end Cirrove.Journal
