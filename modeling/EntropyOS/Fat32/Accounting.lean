import EntropyOS.Fat32.Session

/-!
# The free count

`g_free_clusters` moves by one with every cluster that is taken or given back,
and every call ends by storing it in the FSInfo sector.  Both therefore equal
the number of free entries of the FAT, in every state of a session.
-/

namespace EntropyOS.Fat32

open EntropyOS.Foundation

namespace Volume

/-- The cached count is the number of free clusters. -/
def Balanced (v : Volume) : Prop := v.freeClusters = v.freeList.length

structure Counted (v : Volume) : Prop where
  balanced : v.Balanced
  signature : signatureAt v.info
  stored : readLe v.info.toBuf 488 4 = v.freeList.length

theorem freeList_length_le (v : Volume) :
    v.freeList.length ≤ v.fs.totalClusters := by
  have h := (List.range' 2 v.fs.totalClusters).length_filter_le
    fun c => decide (v.link c = free)
  rwa [List.length_range'] at h

theorem freeList_congr {v v' : Volume} (hfs : v'.fs = v.fs)
    (hlink : v'.link = v.link) : v'.freeList = v.freeList := by
  simp only [freeList, hfs, hlink]

theorem Balanced.setData {v : Volume} (h : v.Balanced) (c : Nat) (buf : Buf) :
    (v.setData c buf).Balanced := h

/-! ## Giving back -/

theorem freeList_give {v : Volume} {c : Nat} (hc : v.fs.InRange c)
    (hlink : v.link c ≠ free) :
    (v.give c).freeList.length = v.freeList.length + 1 := by
  have hperm : (v.give c).freeList.Perm (c :: v.freeList) := by
    rw [List.perm_ext_iff_of_nodup (v.give c).freeList_nodup]
    · intro x
      rw [List.mem_cons, mem_freeList, mem_freeList, give_link, give_fs]
      by_cases hx : x = c
      · simp [hx, hc]
      · simp [hx]
    · refine List.nodup_cons.mpr ⟨fun hmem => ?_, v.freeList_nodup⟩
      exact hlink (mem_freeList.mp hmem).2
  simpa using hperm.length_eq

section Known

variable {v : Volume} (hsmall : v.fs.totalClusters < 4294967295)

include hsmall

theorem Balanced.known (h : v.Balanced) : v.freeClusters ≠ unknownCount := by
  have hle := v.freeList_length_le
  rw [Balanced] at h
  simp only [unknownCount]
  omega

theorem Balanced.give (h : v.Balanced) {c : Nat} (hc : v.fs.InRange c)
    (hlink : v.link c ≠ free) : (v.give c).Balanced := by
  have hle := (v.give c).freeList_length_le
  have hlength := freeList_give hc hlink
  have hcount : (v.give c).freeClusters = countGiven v.freeClusters := rfl
  rw [Balanced, hcount, countGiven, if_pos (h.known hsmall), hlength]
  rw [Balanced] at h
  rw [give_fs] at hle
  rw [u32_of_lt (by omega), h]

end Known

theorem Balanced.release {v : Volume} {l : List Nat} (h : v.Balanced)
    (hsmall : v.fs.totalClusters < 4294967295) (hnodup : l.Nodup)
    (hrange : ∀ c ∈ l, v.fs.InRange c) (hlink : ∀ c ∈ l, v.link c ≠ free) :
    (v.release l).Balanced := by
  induction l generalizing v with
  | nil => exact h
  | cons c l ih =>
      obtain ⟨hc, hl⟩ := List.nodup_cons.mp hnodup
      refine ih (v := v.give c) (h.give hsmall (hrange c (by simp))
        (hlink c (by simp))) (by simpa using hsmall) hl ?_ ?_
      · exact fun d hd => hrange d (List.mem_cons_of_mem _ hd)
      · intro d hd
        have hne : d ≠ c := fun heq => hc (heq ▸ hd)
        rw [give_link, if_neg hne]
        exact hlink d (List.mem_cons_of_mem _ hd)

/-! ## Taking -/

theorem countTaken_cons {v : Volume} {c : Nat} {rest : List Nat}
    (hsmall : v.fs.totalClusters < 4294967295) (h : v.Balanced)
    (hfree : v.freeList = c :: rest) :
    countTaken v.freeClusters = rest.length := by
  have hknown := h.known hsmall
  rw [Balanced, hfree, List.length_cons] at h
  rw [countTaken, if_pos ⟨hknown, by omega⟩, h]
  rfl

theorem append_count (v : Volume) (c prev : Nat) (data : List UInt8) :
    (v.append c prev data).freeClusters = countTaken v.freeClusters := by
  unfold append
  split <;> rfl

/-- The data loop takes the clusters `cs` off the free list, and counts. -/
theorem fill_freeList {v : Volume} {cs rest : List Nat} {data : List UInt8}
    {prev : Nat} (hfree : v.freeList = cs ++ rest) (hprev : v.Follows prev)
    (hlow : ∀ c ∈ cs, c < 268435456) :
    (v.fill cs data prev).freeList = rest := by
  induction cs generalizing v data prev with
  | nil => exact hfree
  | cons c cs ih =>
      have hmem : c ∈ v.freeList := by simp [hfree]
      obtain ⟨hrange, hlink⟩ := mem_freeList.mp hmem
      refine ih (v := v.append c prev data) ?_ ?_ ?_
      · exact freeList_append hfree hprev (hlow c (by simp))
      · exact follows_append data hrange hlink hprev
      · exact fun d hd => hlow d (List.mem_cons_of_mem _ hd)

theorem fill_count {v : Volume} (cs : List Nat) (data : List UInt8)
    (prev : Nat) (hknown : v.freeClusters < unknownCount)
    (hle : cs.length ≤ v.freeClusters) :
    (v.fill cs data prev).freeClusters = v.freeClusters - cs.length := by
  induction cs generalizing v data prev with
  | nil => rfl
  | cons c cs ih =>
      rw [List.length_cons] at hle
      have hcount : (v.append c prev data).freeClusters = v.freeClusters - 1 := by
        rw [append_count, countTaken, if_pos ⟨by omega, by omega⟩]
      rw [fill, ih, hcount, List.length_cons]
      · omega
      · omega
      · omega

theorem Balanced.fill {v : Volume} {cs rest : List Nat} {data : List UInt8}
    {prev : Nat} (h : v.Balanced) (hsmall : v.fs.totalClusters < 4294967295)
    (hfree : v.freeList = cs ++ rest) (hprev : v.Follows prev)
    (hlow : ∀ c ∈ cs, c < 268435456) : (v.fill cs data prev).Balanced := by
  have hle := v.freeList_length_le
  have hlength : v.freeList.length = cs.length + rest.length := by
    rw [hfree, List.length_append]
  have hknown := h.known hsmall
  rw [Balanced] at h
  rw [Balanced, fill_freeList hfree hprev hlow, fill_count]
  · omega
  · simp only [unknownCount]
    omega
  · omega

/-! ## The FSInfo sector -/

theorem info_release (v : Volume) (l : List Nat) : (v.release l).info = v.info := by
  induction l generalizing v with
  | nil => rfl
  | cons c l ih => exact ih (v.give c)

theorem info_fill (v : Volume) (cs : List Nat) (data : List UInt8) (prev : Nat) :
    (v.fill cs data prev).info = v.info := by
  induction cs generalizing v data prev with
  | nil => rfl
  | cons c cs ih =>
      rw [fill, ih]
      unfold append
      split <;> rfl

private theorem infoSector_byte (sector : Sector) (count nextFree : Nat)
    {k : Nat} (hk : k < 484) :
    (infoSector sector count nextFree).toBuf k = sector.toBuf k := by
  simp only [infoSector]
  rw [Sector.toBuf_ofBuf _ (by omega)]
  split <;> split <;> simp only [storeLe] <;>
    first | rfl | (repeat rw [if_neg (by omega)])

private theorem infoSector_count (sector : Sector) {count : Nat}
    (nextFree : Nat) (hcount : count < unknownCount) :
    readLe (infoSector sector count nextFree).toBuf 488 4 = count := by
  have hread : readLe (infoSector sector count nextFree).toBuf 488 4 =
      readLe (storeLe sector.toBuf 488 4 count) 488 4 := by
    apply readLe_congr
    intro i hi
    simp only [infoSector]
    rw [Sector.toBuf_ofBuf _ (by omega), if_pos (Nat.ne_of_lt hcount)]
    split
    · rw [storeLe, if_neg (by omega)]
    · rfl
  rw [hread, readLe_storeLe_same]
  simp only [unknownCount] at hcount
  omega

theorem infoSector_hint (sector : Sector) (count : Nat) {nextFree : Nat}
    (hnext : nextFree < 4294967296) :
    readLe (infoSector sector count nextFree).toBuf 492 4 =
      if nextFree ≠ unknownCount then nextFree
      else readLe sector.toBuf 492 4 := by
  have hold : ∀ {buf : Buf}, (∀ i < 4, buf (492 + i) = sector.toBuf (492 + i)) →
      readLe (Sector.ofBuf buf).toBuf 492 4 = readLe sector.toBuf 492 4 := by
    intro buf hbuf
    apply readLe_congr
    intro i hi
    rw [Sector.toBuf_ofBuf _ (by omega), hbuf i hi]
  simp only [infoSector]
  by_cases hknown : nextFree = unknownCount
  · rw [if_neg (not_not.mpr hknown), if_neg (not_not.mpr hknown)]
    apply hold
    intro i hi
    split
    · rw [storeLe, if_neg (by omega)]
    · rfl
  · rw [if_pos hknown, if_pos hknown]
    have hread : ∀ buf : Buf,
        readLe (Sector.ofBuf (storeLe buf 492 4 nextFree)).toBuf 492 4 = nextFree := by
      intro buf
      have hsame : readLe (Sector.ofBuf (storeLe buf 492 4 nextFree)).toBuf 492 4 =
          readLe (storeLe buf 492 4 nextFree) 492 4 :=
        readLe_congr fun i hi => Sector.toBuf_ofBuf _ (by omega)
      rw [hsame, readLe_storeLe_same]
      omega
    exact hread _

theorem signatureAt_infoSector {sector : Sector} (count nextFree : Nat)
    (h : signatureAt sector) : signatureAt (infoSector sector count nextFree) := by
  have hbyte : ∀ k : Fin 512, k.val < 484 →
      infoSector sector count nextFree k = sector k := by
    intro k hk
    have heq := infoSector_byte sector count nextFree hk
    simpa [Sector.toBuf] using heq
  unfold signatureAt
  rw [hbyte 0 (by decide), hbyte 1 (by decide), hbyte 2 (by decide),
    hbyte 3 (by decide)]
  exact h

theorem finish_count (v : Volume) (nextFree : Nat) :
    (v.finish nextFree).freeClusters = v.freeClusters := by
  unfold finish
  split <;> rfl

theorem Balanced.counted {v : Volume} (h : v.Balanced)
    (hsmall : v.fs.totalClusters < 4294967295) (hsignature : signatureAt v.info)
    (nextFree : Nat) : (v.finish nextFree).Counted := by
  have hknown := h.known hsmall
  have hle := v.freeList_length_le
  have hfree : (v.finish nextFree).freeList = v.freeList :=
    freeList_congr (finish_fs v nextFree) (finish_link v nextFree)
  have hinfo : (v.finish nextFree).info =
      infoSector v.info v.freeClusters nextFree := by
    simp only [finish, if_pos hknown, setInfo, updatedInfo, if_pos hsignature]
  rw [Balanced] at h
  constructor
  · rw [Balanced, finish_count, hfree, h]
  · rw [hinfo]
    exact signatureAt_infoSector _ _ hsignature
  · rw [hinfo, hfree, ← h]
    apply infoSector_count
    simp only [unknownCount]
    omega

end Volume

/-! ## Sessions -/

theorem Volume.Fresh.freeList_eq {v : Volume} {fatSize clusters : Nat}
    (h : v.Fresh fatSize clusters) (hroot : 1 ≤ clusters) :
    v.freeList = List.range' 3 (clusters - 1) := by
  have hrange : List.range' 2 v.fs.totalClusters =
      2 :: List.range' 3 (clusters - 1) := by
    rw [h.fs, newFs]
    obtain ⟨count, rfl⟩ := Nat.exists_eq_add_of_le' hroot
    rfl
  have hlink : ∀ c, 2 ≤ c → c < clusters + 2 →
      v.link c = if c = 2 then 0x0FFFFFFF else free := by
    intro c hlow hhigh
    apply h.link
    rw [h.fs]
    exact ⟨hlow, hhigh⟩
  have htwo : v.link 2 ≠ free := by
    rw [hlink 2 le_rfl (by omega)]
    decide
  rw [Volume.freeList, hrange, List.filter_cons_of_neg (by simpa using htwo),
    List.filter_eq_self]
  intro c hc
  rw [List.mem_range'_1] at hc
  rw [hlink c (by omega) (by omega), if_neg (by omega)]
  rfl

theorem Volume.Fresh.counted {v : Volume} {fatSize clusters : Nat}
    (h : v.Fresh fatSize clusters) (hroot : 1 ≤ clusters) : v.Counted := by
  have hfree := h.freeList_eq hroot
  refine ⟨?_, h.signature, ?_⟩
  · rw [Volume.Balanced, h.count, hfree, List.length_range']
  · rw [h.stored, hfree, List.length_range']

section Step

variable {v v' : Volume} {c : Call}

private theorem Volume.Balanced.release_chain (h : v.Balanced)
    (hsmall : v.fs.totalClusters < 4294967295) {first : Nat} {old : List Nat}
    (hold : v.Chain first old) : (v.release old).Balanced :=
  h.release hsmall hold.nodup hold.inRange fun _ hc => hold.link_ne_free hc

theorem Outcome.counted (hsmall : v.fs.totalClusters < 4294967295)
    (h : Outcome v c v') (hcounted : v.Counted) : v'.Counted := by
  have hbalanced := hcounted.balanced
  cases h with
  | @written n l old p filename data hn hdir hl hascii hsize htarget hlow
      hlength =>
      have hrelease : (v.release old).Balanced := by
        cases htarget with
        | existing _ _ _ hold => exact hbalanced.release_chain hsmall hold
        | free => exact hbalanced
      have hfill : ((v.release old).fill (v.taken old data.length) data
          0).Balanced := by
        refine hrelease.fill (by simpa using hsmall)
          (List.take_append_drop (clustersFor data.length) _).symm (.inl rfl) ?_
        intro c hc
        have := hlow c hc
        simp only [eoc] at this
        omega
      have hsignature : signatureAt
          ((v.release old).fill (v.taken old data.length) data 0).info := by
        rw [Volume.info_fill, Volume.info_release]
        exact hcounted.signature
      exact (hfill.setData _ _).counted (by simpa using hsmall) hsignature _
  | @created n l rest p c dirname hn hdir hl hascii htarget hunused hfree hlow =>
      have htake : (v.take c).Balanced := by
        have hcount : (v.take c).freeClusters = countTaken v.freeClusters := rfl
        rw [Volume.Balanced, Volume.freeList_take hfree, hcount,
          Volume.countTaken_cons hsmall hbalanced hfree]
      exact ((htake.setData _ _).setData _ _).counted (by simpa using hsmall)
        hcounted.signature _
  | directoryRemoved hn hdir hl hp hnamed hdot hold =>
      refine ((hbalanced.release_chain hsmall hold).setData _ _).counted
        (by simpa using hsmall) ?_ _
      change signatureAt (Volume.release _ _).info
      rw [Volume.info_release]
      exact hcounted.signature
  | fileRemoved hl hp hnamed hdot hold =>
      refine ((hbalanced.release_chain hsmall hold).setData _ _).counted
        (by simpa using hsmall) ?_ _
      change signatureAt (Volume.release _ _).info
      rw [Volume.info_release]
      exact hcounted.signature

end Step

end EntropyOS.Fat32
