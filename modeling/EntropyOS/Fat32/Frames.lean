import EntropyOS.Fat32.Files

/-!
# What every primitive step keeps

A relation between the states before and after that holds over each transfer,
each message and each change of the count of free clusters holds over the parts
of the calls that are made of these.
-/

namespace EntropyOS.Fat32

open EntropyOS.Foundation

/-- The relation holds over single steps, and over the messages `said`. -/
structure Stepwise (said : String → Prop) (r : System → System → Prop) : Prop where
  refl : ∀ s, r s s
  trans : ∀ {s s' s''}, r s s' → r s' s'' → r s s''
  text : ∀ (s : System) message, said message →
    r s { s with console := message :: s.console }
  tick : ∀ s : System, r s s.tick
  put : ∀ (s : System) lba sector, r s (s.put lba sector)
  mark : ∀ (s : System) lba, r s { s with device :=
    { s.device with writes := lba :: s.device.writes } }
  fat32 : ∀ (s : System) st, r s { s with fat32 := st }
  readFailed : said "block: ms_read_blocks failed\n"
  writeFailed : said "block: ms_write_blocks failed\n"

/-- The loop that frees a chain keeps what its two calls keep. -/
theorem freeChain_within {r : System → System → Prop} [Std.Refl r] [IsTrans System r]
    (hnext : ∀ c, Within r (getNextCluster c))
    (hfree : ∀ c, Live c → Within r (freeCluster c)) :
    ∀ c, Within r (freeChain c) := by
  refine freeChain.fixpoint_induct (fun f => ∀ c, Within r (f c)) ?limit ?step
  case limit =>
    intro chain _ hchain c s a s' hrun
    obtain ⟨f, hf, hrun⟩ := exists_run_of_sup _ hrun
    exact hchain f hf c s a s' hrun
  case step =>
    intro f ih c
    beta_reduce
    split
    · next hlive =>
        apply Within.bind (hnext c)
        intro next
        exact Within.bind (hfree c hlive) fun _ => ih next
    · exact Within.pure ()

namespace Stepwise

variable {said : String → Prop} {r : System → System → Prop} (h : Stepwise said r)

include h

theorem within_pure {α : Type} (a : α) :
    Within r (Pure.pure a : Program System α) := by
  intro s b s' hrun
  cases hrun
  exact h.refl s

theorem within_bind {α β : Type} {program : Program System α}
    {next : α → Program System β} (first : Within r program)
    (second : ∀ a, Within r (next a)) : Within r (program >>= next) := by
  intro s b s' hrun
  obtain ⟨a, middle, hfirst, hsecond⟩ := Program.exists_of_bind hrun
  exact h.trans (first s a middle hfirst) (second a middle b s' hsecond)

theorem within_get : Within r (get : Program System System) := by
  intro s b s' hrun
  cases hrun
  exact h.refl s

theorem within_text {message : String} (hsaid : said message) :
    Within r (EntropyOS.text message) :=
  Within.modify fun s => h.text s message hsaid

theorem within_transferFails (lba : Nat) : Within r (transferFails lba) := by
  intro s fails s' hrun
  cases hrun
  exact h.tick s

theorem within_getFat32 : Within r getFat32 :=
  h.within_bind h.within_get fun _ => h.within_pure _

theorem within_getFs : Within r getFs :=
  h.within_bind h.within_get fun _ => h.within_pure _

theorem within_modifyFat32 (f : Statics → Statics) : Within r (modifyFat32 f) :=
  Within.modify fun s => h.fat32 s _

theorem within_readSector (lba : Nat) : Within r (readSector lba) := by
  apply h.within_bind h.within_getFat32
  intro st
  apply h.within_bind h.within_get
  intro s
  apply Within.ite _ (h.within_pure _)
  apply h.within_bind (h.within_transferFails _)
  intro fails
  apply Within.ite _ (h.within_pure _)
  apply Within.ite (h.within_pure _)
  exact h.within_bind (h.within_text h.readFailed) fun _ => h.within_pure _

theorem within_writeSector (lba : Nat) (sector : Sector) :
    Within r (writeSector lba sector) := by
  apply h.within_bind h.within_getFat32
  intro st
  apply h.within_bind h.within_get
  intro s
  apply Within.ite _ (h.within_pure _)
  apply h.within_bind (h.within_transferFails _)
  intro fails
  apply Within.ite
  · apply h.within_bind (Within.modify fun s => h.mark s _)
    intro _
    apply Within.ite (h.within_pure _)
    exact h.within_bind (h.within_text h.writeFailed) fun _ => h.within_pure _
  · exact h.within_bind (Within.modify fun s => h.put s _ _) fun _ => h.within_pure _

theorem within_flushIfSata {warning : String} (hsaid : said warning) :
    Within r (flushIfSata warning) := by
  have hone : Within r sataFlushCache := by
    apply h.within_bind h.within_get
    intro s
    apply Within.ite _ (h.within_pure _)
    exact h.within_bind (h.within_transferFails _) fun fails =>
      Within.ite (h.within_pure _) (h.within_pure _)
  have hall : ∀ count, Within r (flushCache warning count) := by
    intro count
    induction count with
    | zero => exact h.within_pure _
    | succ count ih =>
        apply h.within_bind hone
        intro status
        exact Within.ite (h.within_bind (h.within_text hsaid) fun _ => ih) ih
  exact h.within_bind h.within_get fun s => Within.ite (hall 5) (h.within_pure _)

theorem within_writeSectors (lba : Nat) (buf : Buf) (count i : Nat) :
    Within r (writeSectors lba buf count i) := by
  induction count generalizing i with
  | zero => exact h.within_pure _
  | succ count ih =>
      apply h.within_bind (h.within_writeSector _ _)
      intro status
      exact Within.ite (h.within_pure _) (ih (i + 1))

theorem within_writeCluster (cluster : Nat) (buf : Buf) :
    Within r (writeCluster cluster buf) :=
  h.within_bind h.within_getFs fun _ => h.within_writeSectors _ _ _ _

theorem within_getNextCluster (cluster : Nat) : Within r (getNextCluster cluster) := by
  apply h.within_bind h.within_getFs
  intro fs
  apply h.within_bind (h.within_readSector _)
  intro read
  cases read with
  | none => exact h.within_pure _
  | some sector => exact h.within_pure _

theorem within_setNextCluster (cluster next : Nat) :
    Within r (setNextCluster cluster next) := by
  apply h.within_bind h.within_getFs
  intro fs
  apply h.within_bind (h.within_readSector _)
  intro read
  cases read with
  | none => exact h.within_pure _
  | some sector =>
      apply h.within_bind (h.within_writeSector _ _)
      intro status
      apply Within.ite (h.within_pure _)
      apply Within.ite _ (h.within_pure _)
      apply h.within_bind (h.within_writeSector _ _)
      intro status
      exact Within.ite (h.within_pure _) (h.within_pure _)

theorem within_freeCluster (cluster : Nat) : Within r (freeCluster cluster) := by
  apply h.within_bind (h.within_setNextCluster _ _)
  intro result
  exact Within.ite (h.within_bind (h.within_modifyFat32 _) fun _ => h.within_pure _)
    (h.within_pure _)

theorem within_allocateFrom (count cluster : Nat) :
    Within r (allocateFrom count cluster) := by
  induction count generalizing cluster with
  | zero => exact h.within_pure _
  | succ count ih =>
      apply h.within_bind (h.within_getNextCluster _)
      intro next
      apply Within.ite _ (ih _)
      apply h.within_bind (h.within_setNextCluster _ _)
      intro status
      apply Within.ite _ (ih _)
      exact h.within_bind (h.within_modifyFat32 _) fun _ => h.within_pure _

theorem within_allocateCluster : Within r allocateCluster :=
  h.within_bind h.within_getFs fun _ => h.within_allocateFrom _ _

theorem within_updateFsinfoIfKnown (nextFree : Nat) :
    Within r (updateFsinfoIfKnown nextFree) := by
  apply h.within_bind h.within_getFat32
  intro st
  apply Within.ite _ (h.within_pure _)
  apply h.within_bind _ fun _ => h.within_pure _
  apply h.within_bind (h.within_readSector _)
  intro read
  cases read with
  | none => exact h.within_pure _
  | some sector =>
      apply Within.ite (h.within_pure _)
      apply h.within_bind (h.within_writeSector _ _)
      intro status
      apply Within.ite (h.within_pure _)
      exact h.within_bind (h.within_writeSector _ _) fun _ => h.within_pure _

end Stepwise

end EntropyOS.Fat32
