import EntropyOS.Libexfat.Store
import EntropyOS.Foundation.Ownership

/-!
# Sessions on a volume

A volume is sound when every cluster belongs to one file at most, and the bitmap
has exactly those as free that belong to none.  Calls keep a volume sound, and
what they return is what a store of files returns.
-/

namespace EntropyOS.Libexfat

open EntropyOS.Foundation

/-- The file of a node, as those who use it see it. -/
def VolumeOn.text (v : View) (node : Nat) (cs : List Nat) : Text :=
  ⟨(List.range (v.nodes node).size).map (v.bytes node cs), (v.nodes node).validSize⟩

/--
The files of the nodes in `live`, with their clusters.  The clusters in `reserved`
belong to none of them: those of the bitmap, of the upcase table, and of the files
that are not open.
-/
structure Sound (live reserved : Nat → Prop) (clusters : Nat → List Nat) (v : View) :
    Prop where
  mounted : Mounted v
  file : ∀ n, live n → File v n (clusters n)
  inUse : ∀ n, live n → (v.nodes n).InUse
  owned : Ownership v.sb.Valid live reserved clusters (· ∈ v.free)

/-- The store of files that a sound volume holds. -/
structure Represents (live reserved : Nat → Prop) (clusters : Nat → List Nat) (v : View)
    (d : Store) : Prop where
  sound : Sound live reserved clusters v
  clusterSize_eq : d.clusterSize = v.sb.clusterSize
  free_eq : d.free = v.free.card
  text_eq : ∀ n, live n → d.text n = v.text n (clusters n)

/--
Nothing is different outside the clusters that are not reserved: not the boot
region, not the reserved clusters, not their links, and not the other nodes.  The
nodes keep their names, their attributes and their parents.
-/
structure Untouched (live reserved : Nat → Prop) (v v' : View) : Prop where
  settings : v.SameSettings v'
  identity : ∀ n, (v.nodes n).SameIdentity (v'.nodes n)
  others : ∀ n, ¬ live n → v'.nodes n = v.nodes n
  dev : ∀ k, (∀ c, v.sb.Valid c → ¬ reserved c →
    ¬ v.sb.OnLink c k ∧ ¬ v.sb.InCluster c k) → v'.dev k = v.dev k

namespace Untouched

variable {live reserved : Nat → Prop} {v v' v'' : View}

theorem refl (live reserved : Nat → Prop) (v : View) : Untouched live reserved v v :=
  ⟨.refl v, fun _ => .refl _, fun _ _ => rfl, fun _ _ => rfl⟩

theorem trans (h : Untouched live reserved v v') (h' : Untouched live reserved v' v'') :
    Untouched live reserved v v'' where
  settings := h.settings.trans h'.settings
  identity n := (h.identity n).trans (h'.identity n)
  others n hn := (h'.others n hn).trans (h.others n hn)
  dev k hk := by
    rw [h'.dev k (by simpa only [h.settings.sb_eq] using hk), h.dev k hk]

end Untouched

section Soundness

variable {live reserved : Nat → Prop} {clusters : Nat → List Nat} {v v' : View}
  {n : Nat} {cs' : List Nat} {d : Store}

/-- A change of one file, between its clusters and the free ones. -/
theorem Sound.of_change (h : Sound live reserved clusters v) (hn : live n)
    (hfile : File v' n cs') (hchange : Change n ((clusters n).toFinset ∪ v.free) v v')
    (hfree : v'.free ∪ cs'.toFinset = v.free ∪ (clusters n).toFinset)
    (hfresh : ∀ c ∈ cs', c ∉ v'.free) :
    Sound live reserved (Function.update clusters n cs') v' ∧
      ∀ m, live m → m ≠ n → v'.text m (clusters m) = v.text m (clusters m) := by
  have hsb := hchange.settings.sb_eq
  have hvalid := valid_of_mem_union (h.file n hn).chain
  have hothers : ∀ m, live m → m ≠ n →
      File v' m (clusters m) ∧ v'.bytes m (clusters m) = v.bytes m (clusters m) := by
    intro m hm hne
    refine hchange.file h.mounted.sane hvalid hne (fun c hc hmem => ?_) (h.file m hm)
    refine h.owned.notMem_of_exchange hn hm hne hc ?_
    simpa [or_comm] using hmem
  refine ⟨⟨hchange.settings.mounted h.mounted, fun m hm => ?_, fun m hm => ?_, ?_⟩,
    fun m hm hne => ?_⟩
  · by_cases hmn : m = n
    · subst hmn
      rwa [Function.update_self]
    · rw [Function.update_of_ne hmn]
      exact (hothers m hm hmn).1
  · by_cases hmn : m = n
    · subst hmn
      have hidentity := hchange.identity
      rw [Node.InUse, hidentity.references_eq, hidentity.parent_eq]
      exact h.inUse m hm
    · rw [hchange.others m hmn]
      exact h.inUse m hm
  · rw [hsb]
    exact h.owned.update hn (fun c => by simpa using Finset.ext_iff.mp hfree c) hfresh
  · rw [VolumeOn.text, VolumeOn.text, hchange.others m hne, (hothers m hm hne).2]

theorem Sound.untouched (h : Sound live reserved clusters v) (hn : live n)
    (hchange : Change n ((clusters n).toFinset ∪ v.free) v v') :
    Untouched live reserved v v' := by
  refine ⟨hchange.settings, fun m => ?_, fun m hm => hchange.others m ?_,
    fun k hk => hchange.dev k ?_⟩
  · by_cases hmn : m = n
    · subst hmn
      exact hchange.identity
    · rw [hchange.others m hmn]
      exact .refl _
  · rintro rfl
    exact hm hn
  · intro c hc
    have hsource : v.sb.Valid c ∧ ¬ reserved c := by
      rcases Finset.mem_union.mp hc with hc | hc
      · rw [List.mem_toFinset] at hc
        exact ⟨h.owned.inside n hn c hc, h.owned.kept n hn c hc⟩
      · exact ⟨((h.owned.exact c).mp hc).1, ((h.owned.exact c).mp hc).2.1⟩
    exact hk c hsource.1 hsource.2

theorem Sound.fresh (h : Sound live reserved clusters v) (hn : live n) :
    ∀ c ∈ clusters n, c ∉ v.free :=
  fun _ hc => h.owned.not_free hn hc

theorem text_length (v : View) (node : Nat) (cs : List Nat) :
    (v.text node cs).bytes.length = (v.nodes node).size := by
  simp [VolumeOn.text]

theorem Represents.length_eq (h : Represents live reserved clusters v d) (hn : live n) :
    (d.text n).bytes.length = (v.nodes n).size := by
  rw [h.text_eq n hn, text_length]

theorem Represents.valid_eq (h : Represents live reserved clusters v d) (hn : live n) :
    (d.text n).valid = (v.nodes n).validSize := by
  rw [h.text_eq n hn]
  rfl

theorem Represents.clustersFor_eq (h : Represents live reserved clusters v d) (size : Nat) :
    d.clustersFor size = v.sb.clustersFor size := by
  rw [Store.clustersFor, SuperBlock.clustersFor, h.clusterSize_eq]

/-- The store counts the clusters as the volume does. -/
theorem Represents.fits_iff (h : Represents live reserved clusters v d) (hn : live n)
    (size : Nat) : d.Fits n size ↔
      v.sb.clustersFor size ≤ (clusters n).length + v.free.card := by
  rw [Store.Fits, h.clustersFor_eq, h.clustersFor_eq, h.length_eq hn, h.free_eq,
    (h.sound.file n hn).length_eq]

/-- The volume after a change of one file represents the store with its new text. -/
theorem Represents.of_change (h : Represents live reserved clusters v d) (hn : live n)
    (hfile : File v' n cs') (hchange : Change n ((clusters n).toFinset ∪ v.free) v v')
    (hfree : v'.free ∪ cs'.toFinset = v.free ∪ (clusters n).toFinset)
    (hfresh : ∀ c ∈ cs', c ∉ v'.free) {t : Text} (htext : v'.text n cs' = t) :
    Represents live reserved (Function.update clusters n cs') v' (d.set n t) := by
  obtain ⟨hsound, hothers⟩ := h.sound.of_change hn hfile hchange hfree hfresh
  have hsb := hchange.settings.sb_eq
  refine ⟨hsound, by rw [hsb]; exact h.clusterSize_eq, ?_, fun m hm => ?_⟩
  · have hcard := card_eq_of_exchange (h.sound.file n hn).chain.nodup (h.sound.fresh hn)
      hfile.chain.nodup hfresh hfree
    have hnew := hfile.length_eq
    rw [hsb, ← text_length v' n cs', htext] at hnew
    have hold := (h.sound.file n hn).length_eq
    rw [← h.length_eq hn] at hold
    simp only [Store.set, h.clustersFor_eq, ← hnew, ← hold, h.free_eq]
    omega
  · by_cases hmn : m = n
    · subst hmn
      simp [Store.set, htext]
    · simp only [Store.set, Function.update_of_ne hmn]
      rw [hothers m hm hmn]
      exact h.text_eq m hm

theorem Represents.of_same (h : Represents live reserved clusters v d) (hn : live n)
    (hfile : File v' n cs') (hchange : Change n ((clusters n).toFinset ∪ v.free) v v')
    (hfree : v'.free ∪ cs'.toFinset = v.free ∪ (clusters n).toFinset)
    (hfresh : ∀ c ∈ cs', c ∉ v'.free) (htext : v'.text n cs' = d.text n) :
    Represents live reserved (Function.update clusters n cs') v' d := by
  have hset := h.of_change hn hfile hchange hfree hfresh htext
  have hsame : d.set n (d.text n) = d := by simp [Store.set]
  rwa [hsame] at hset

/-! ## The texts -/

theorem map_range_eq {l : List UInt8} {f : Nat → UInt8} {size : Nat}
    (hlength : l.length = size) (h : ∀ k < size, l.getD k 0 = f k) :
    (List.range size).map f = l := by
  refine List.ext_getElem (by simpa using hlength.symm) fun k hk hk' => ?_
  have heq := h k (by omega)
  rw [List.getD_eq_getElem _ _ hk'] at heq
  simp [heq]

/-- Behind the end of the file there are zeros only. -/
theorem text_getD {cs : List Nat} (hfile : File v n cs) (k : Nat) :
    (v.text n cs).bytes.getD k 0 = v.bytes n cs k := by
  by_cases hk : k < (v.nodes n).size
  · rw [List.getD_eq_getElem _ _ (by rwa [text_length])]
    simp [VolumeOn.text]
  · rw [List.getD_eq_default _ _ (by rw [text_length]; omega),
      hfile.bytes_eq_zero (by omega)]

theorem Resized.text_eq {cs : List Nat} {size valid : Nat}
    (h : Resized n cs cs' size v v') (hfile : File v n cs)
    (hvalid : (v'.nodes n).validSize = valid) :
    v'.text n cs' = (v.text n cs).resize size valid := by
  have hbytes : (List.range size).map (v'.bytes n cs') =
      ((v.text n cs).resize size valid).bytes := by
    refine map_range_eq (Text.length_resize ..) fun k hk => ?_
    rw [Text.getD_resize, if_pos hk, text_getD hfile, h.bytes k hk]
  rw [VolumeOn.text, h.size_eq, hvalid, hbytes]
  rfl

theorem Written.text_eq {cs : List Nat} {offset : Nat} {data : List UInt8}
    (h : Written n cs cs' offset data.length (Buf.ofList data) v v') (hfile : File v n cs) :
    v'.text n cs' = (v.text n cs).put offset data := by
  have hvalid : (v'.nodes n).validSize = ((v.text n cs).put offset data).valid := by
    rw [h.valid_eq, Text.put, Text.validTo, text_length]
    simp only [VolumeOn.text, List.length_eq_zero_iff]
  have hbytes : (List.range (max (v.nodes n).size (offset + data.length))).map
      (v'.bytes n cs') = ((v.text n cs).put offset data).bytes := by
    refine map_range_eq (by rw [Text.length_put, text_length]) fun k hk => ?_
    rw [Text.getD_put, text_getD hfile, h.bytes k hk]
    rfl
  rw [VolumeOn.text, h.size_eq, hvalid, hbytes]

theorem text_slice {cs : List Nat} {buffer : Buf} {offset size : Nat}
    (h : ∀ k < min size ((v.nodes n).size - offset), buffer k = v.bytes n cs (offset + k)) :
    (List.range (min size ((v.nodes n).size - offset))).map buffer =
      (v.text n cs).slice offset size := by
  refine List.ext_getElem (by simp [Text.slice, VolumeOn.text]) fun k hk hk' => ?_
  rw [List.length_map, List.length_range] at hk
  simp [Text.slice, VolumeOn.text, h k hk]

end Soundness

/-! ## One call -/

/--
The call returns what the store says, the volume represents the store after it, and
the rest of the volume is untouched.
-/
def Follows (live reserved : Nat → Prop) (v : View) (d : Store) (call : Call) : Prop :=
  ∃ v' clusters', Runs Shows v call.run (call.apply d).1 v' ∧
    Represents live reserved clusters' v' (call.apply d).2 ∧
    Untouched live reserved v v'

section Step

variable {live reserved : Nat → Prop} {clusters : Nat → List Nat} {v : View} {n : Nat}
  {d : Store} (h : Represents live reserved clusters v d) (hn : live n)

include h

theorem Represents.sizeLimit_eq : v.sb.sizeLimit = 0xffffffff * d.clusterSize := by
  rw [SuperBlock.sizeLimit, h.clusterSize_eq]

include hn

theorem truncate_follows {size : Nat} (erase : Bool)
    (hproper : (Call.truncate n size erase).Proper d) :
    Follows live reserved v d (.truncate n size erase) := by
  have hfile := h.sound.file n hn
  have hfresh := h.sound.fresh hn
  have huse := h.sound.inUse n hn
  have hlimit : size ≤ v.sb.sizeLimit := by
    rw [h.sizeLimit_eq]
    exact hproper
  have hlength := h.length_eq hn
  by_cases hfits : d.Fits n size
  · obtain ⟨v', cs', hrun, hresized, hvalid⟩ := truncate_runs h.sound.mounted hfile hfresh
      huse hlimit ((h.fits_iff hn size).mp hfits) erase
    have htext := hresized.text_eq hfile hvalid
    rw [← h.text_eq n hn] at htext
    by_cases hsame : (d.text n).bytes.length = size
    · have happly : (Call.truncate n size erase).apply d = ((0, []), d) := if_pos hsame
      refine ⟨v', Function.update clusters n cs', ?_, ?_, h.sound.untouched hn hresized.change⟩
      · rw [happly]
        exact hrun.bind (Runs.pure _ _)
      · rw [happly]
        refine h.of_same hn hresized.file hresized.change hresized.free_eq hresized.fresh ?_
        rw [htext, if_pos (hlength.symm.trans hsame), ← h.valid_eq hn, ← hsame,
          Text.resize_self]
    · have happly : (Call.truncate n size erase).apply d = ((0, []), d.set n
          ((d.text n).resize size (if erase then size else min (d.text n).valid size))) :=
        (if_neg hsame).trans (if_pos hfits)
      refine ⟨v', Function.update clusters n cs', ?_, ?_, h.sound.untouched hn hresized.change⟩
      · rw [happly]
        exact hrun.bind (Runs.pure _ _)
      · rw [happly]
        refine h.of_change hn hresized.file hresized.change hresized.free_eq hresized.fresh ?_
        rw [htext, if_neg (hlength ▸ hsame), ← h.valid_eq hn]
  · have hroom : (clusters n).length + v.free.card < v.sb.clustersFor size := by
      rw [h.fits_iff hn] at hfits
      omega
    obtain ⟨v', hrun, hresized, hvalid⟩ :=
      truncate_fails h.sound.mounted hfile hfresh huse hlimit hroom erase
    have hsame : (d.text n).bytes.length ≠ size := by
      have hlt := hfile.size_lt hroom
      omega
    have happly : (Call.truncate n size erase).apply d = ((-enospc, []), d) :=
      (if_neg hsame).trans (if_neg hfits)
    have htext := hresized.text_eq hfile hvalid
    refine ⟨v', Function.update clusters n (clusters n), ?_, ?_,
      h.sound.untouched hn hresized.change⟩
    · rw [happly]
      exact hrun.bind (Runs.pure _ _)
    · rw [happly]
      refine h.of_same hn hresized.file hresized.change hresized.free_eq hresized.fresh ?_
      rw [htext, ← h.text_eq n hn, ← h.valid_eq hn, ← hlength, Text.resize_self]

theorem write_follows {data : List UInt8} {offset : Nat}
    (hproper : (Call.write n data offset).Proper d) :
    Follows live reserved v d (.write n data offset) := by
  have hfile := h.sound.file n hn
  have hfresh := h.sound.fresh hn
  have huse := h.sound.inUse n hn
  have hlength := h.length_eq hn
  have hlimit : offset + data.length ≤ v.sb.sizeLimit := by
    rw [h.sizeLimit_eq]
    exact hproper.1
  have hwhere : offset ≤ (v.nodes n).validSize ∨ (v.nodes n).size < offset := by
    rw [← h.valid_eq hn, ← hlength]
    exact hproper.2
  by_cases hfits : d.Fits n (offset + data.length)
  · obtain ⟨v', cs', hrun, hwritten⟩ := genericPwrite_runs h.sound.mounted hfile hfresh huse
      hwhere hlimit ((h.fits_iff hn _).mp hfits) (Buf.ofList data)
    have happly : (Call.write n data offset).apply d =
        (((data.length : Int), []), d.set n ((d.text n).put offset data)) := if_pos hfits
    refine ⟨v', Function.update clusters n cs', ?_, ?_, h.sound.untouched hn hwritten.change⟩
    · rw [happly]
      exact hrun.bind (Runs.pure _ _)
    · rw [happly]
      refine h.of_change hn hwritten.file hwritten.change hwritten.free_eq hwritten.fresh ?_
      rw [hwritten.text_eq hfile, h.text_eq n hn]
  · have hroom : (clusters n).length + v.free.card <
        v.sb.clustersFor (offset + data.length) := by
      rw [h.fits_iff hn] at hfits
      omega
    obtain ⟨v', cs', hrun, hresized, hvalid⟩ := genericPwrite_fails h.sound.mounted hfile
      hfresh huse hlimit hroom (Buf.ofList data)
    have htext := hresized.text_eq hfile hvalid
    rw [← h.text_eq n hn, ← hlength, ← h.valid_eq hn] at htext
    have hreached : reached v n (clusters n) offset =
        if d.Fits n offset then max (d.text n).bytes.length offset
        else (d.text n).bytes.length := by
      rw [reached, hlength]
      exact if_congr (h.fits_iff hn offset).symm rfl rfl
    by_cases hzeros : (d.text n).bytes.length < offset ∧ d.Fits n offset
    · have happly : (Call.write n data offset).apply d =
          ((-enospc, []), d.set n ((d.text n).resize offset offset)) :=
        (if_neg hfits).trans (if_pos hzeros)
      refine ⟨v', Function.update clusters n cs', ?_, ?_, h.sound.untouched hn hresized.change⟩
      · rw [happly]
        exact hrun.bind (Runs.pure _ _)
      · rw [happly]
        refine h.of_change hn hresized.file hresized.change hresized.free_eq hresized.fresh ?_
        rw [htext, hreached, if_pos hzeros.2, Nat.max_eq_right hzeros.1.le, if_pos hzeros.1]
    · have happly : (Call.write n data offset).apply d = ((-enospc, []), d) :=
        (if_neg hfits).trans (if_neg hzeros)
      have hsame : reached v n (clusters n) offset = (d.text n).bytes.length := by
        rw [hreached]
        split
        · next hfit =>
            have hle := mt (fun hlt => And.intro hlt hfit) hzeros
            omega
        · rfl
      refine ⟨v', Function.update clusters n cs', ?_, ?_, h.sound.untouched hn hresized.change⟩
      · rw [happly]
        exact hrun.bind (Runs.pure _ _)
      · rw [happly]
        refine h.of_same hn hresized.file hresized.change hresized.free_eq hresized.fresh ?_
        rw [htext, hsame, if_neg (lt_irrefl _), Text.resize_self]

theorem Represents.kept {v' : View} (hkept : Kept n (clusters n) v v') :
    Represents live reserved clusters v' d := by
  have hresized := hkept.resized
  have hsame := h.of_same hn hresized.file hresized.change hresized.free_eq hresized.fresh (by
    rw [hresized.text_eq (h.sound.file n hn) hkept.valid_eq, ← h.text_eq n hn, ← h.valid_eq hn,
      ← h.length_eq hn, Text.resize_self])
  rwa [Function.update_eq_self] at hsame

theorem read_follows {size offset : Nat} (hproper : (Call.read n size offset).Proper d) :
    Follows live reserved v d (.read n size offset) := by
  obtain ⟨v', buffer, hrun, hkept, hbuffer, -⟩ := genericPread_runs h.sound.mounted
    (h.sound.file n hn) (h.sound.fresh hn) (fun _ => 0) hproper
  have hslice := text_slice hbuffer
  rw [← h.text_eq n hn] at hslice
  have hcount : ((d.text n).slice offset size).length = min size ((v.nodes n).size - offset) := by
    rw [← hslice]
    simp
  refine ⟨v', clusters, ?_, h.kept hn hkept, h.sound.untouched hn hkept.resized.change⟩
  refine hrun.bind ?_
  dsimp only
  rw [Int.toNat_natCast, hslice, ← hcount]
  exact Runs.pure v' _

end Step

section Run

variable {live reserved : Nat → Prop}

theorem call_follows {clusters : Nat → List Nat} {v : View} {d : Store} {call : Call}
    (h : Represents live reserved clusters v d) (hlive : live call.node)
    (hproper : call.Proper d) : Follows live reserved v d call := by
  cases call with
  | truncate n size erase => exact truncate_follows h hlive erase hproper
  | write n data offset => exact write_follows h hlive hproper
  | read n size offset => exact read_follows h hlive hproper

def runAll : List Call → Program Volume (List Answer)
  | [] => return []
  | call :: calls => do
      let answer ← call.run
      return answer :: (← runAll calls)

def applyAll (d : Store) : List Call → List Answer × Store
  | [] => ([], d)
  | call :: calls =>
      let (answer, d) := call.apply d
      let (answers, d) := applyAll d calls
      (answer :: answers, d)

/-- Every call is proper in the store that the calls before it lead to. -/
def AllProper (live : Nat → Prop) (d : Store) : List Call → Prop
  | [] => True
  | call :: calls => live call.node ∧ call.Proper d ∧ AllProper live (call.apply d).2 calls

instance decidableAllProper (live : Nat → Prop) [DecidablePred live] (d : Store) :
    (calls : List Call) → Decidable (AllProper live d calls)
  | [] => inferInstanceAs (Decidable True)
  | call :: calls =>
      have := decidableAllProper live (call.apply d).2 calls
      inferInstanceAs (Decidable (_ ∧ _ ∧ _))

theorem runAll_follows (calls : List Call) {clusters : Nat → List Nat} {v : View}
    {d : Store} (h : Represents live reserved clusters v d) (hproper : AllProper live d calls) :
    ∃ v' clusters', Runs Shows v (runAll calls) (applyAll d calls).1 v' ∧
      Represents live reserved clusters' v' (applyAll d calls).2 ∧
      Untouched live reserved v v' := by
  induction calls generalizing clusters v d with
  | nil => exact ⟨v, clusters, Runs.pure v _, h, .refl _ _ _⟩
  | cons call calls ih =>
      obtain ⟨hlive, hcall, hcalls⟩ := hproper
      obtain ⟨w, clustersw, hrun, hw, hfirst⟩ := call_follows h hlive hcall
      obtain ⟨v', clusters', hrest, hv', hlater⟩ := ih hw hcalls
      exact ⟨v', clusters', hrun.bind (hrest.bind (Runs.pure v' _)), hv',
        hfirst.trans hlater⟩

end Run

end EntropyOS.Libexfat
