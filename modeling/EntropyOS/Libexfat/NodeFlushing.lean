import EntropyOS.Libexfat.EntryChecks

/-!
# Nodes that are written and read

`exfat_flush_node` stores a node in its directory, and `parse_file_entry` makes the
node again from there.  For the files of the volume it is one write to the directory.
-/

namespace EntropyOS.Libexfat

open EntropyOS.Foundation
open EntropyOS.Exfat (heapSize roundUp)

/-! ## Entries in a directory -/

def Text.entries (t : Text) (offset count : Nat) : Buf := Buf.ofList (t.slice offset (32 * count))

theorem ofList_map_range {f : Buf} {size : Nat} (h : ∀ k, size ≤ k → f k = 0) :
    Buf.ofList ((List.range size).map f) = f := by
  funext k
  by_cases hk : k < size
  · simp [Buf.ofList, hk]
  · simp [Buf.ofList, hk, h k (by omega)]

theorem Text.slice_put (t : Text) (offset : Nat) (data : List UInt8) :
    (t.put offset data).slice offset data.length = data := by
  refine List.ext_getElem ?_ fun k hk hk' => ?_
  · simp [slice]
    omega
  · have hbyte := t.getD_put (offset + k) offset data
    rw [if_pos (by omega), Nat.add_sub_cancel_left, List.getD_eq_getElem _ _ hk',
      List.getD_eq_getElem _ _ (by rw [length_put]; omega)] at hbyte
    simpa [slice] using hbyte

section Directory

variable {live reserved : Nat → Prop} {clusters : Nat → List Nat} {v v' : View} {d : Store}
  {dir count offset : Nat}

theorem readEntries_runs (h : Represents live reserved clusters v d) (hlive : live dir)
    (hdir : (v.nodes dir).IsDir) (hinside : offset + 32 * count ≤ (d.text dir).bytes.length) :
    ∃ v', Runs Shows v (readEntries dir count offset)
        (0, (d.text dir).entries offset count) v' ∧
      Represents live reserved clusters v' d ∧
      Change dir ((clusters dir).toFinset ∪ v.free) v v' := by
  have hfile := h.sound.file dir hlive
  have hlength := h.length_eq hlive
  have hlimit := hfile.size_le_limit h.sound.mounted
  have hbelow := sizeLimit_lt h.sound.mounted.sane
  obtain ⟨v', buffer, hread, hkept, hbytes, hzeros⟩ := genericPread_runs h.sound.mounted hfile
    (h.sound.fresh hlive) (fun _ => 0) (show offset + 32 * count < 18446744073709551616 by omega)
  have hwhole : min (32 * count) ((v.nodes dir).size - offset) = 32 * count := by omega
  have hslice := text_slice hbytes
  rw [hwhole] at hread hslice
  have hentries : buffer = (d.text dir).entries offset count := by
    rw [Text.entries, h.text_eq dir hlive, ← hslice, ofList_map_range hzeros]
  refine ⟨v', (getNode_runs dir).bind ((unlessBug_runs hdir).bind (hread.bind
    (Runs.if_pos rfl ?_))), h.kept hlive hkept, hkept.resized.change⟩
  rw [hentries]
  exact Runs.pure v' _

theorem writeEntries_runs (h : Represents live reserved clusters v d) (hlive : live dir)
    (hdir : (v.nodes dir).IsDir) (hinside : offset + 32 * count ≤ (d.text dir).valid)
    {entries : Buf} {data : List UInt8} (hdata : Buf.ofList data = entries)
    (hlength : data.length = 32 * count) :
    ∃ v' clusters', Runs Shows v (writeEntries dir entries count offset) 0 v' ∧
      Represents live reserved clusters' v' (d.set dir ((d.text dir).put offset data)) ∧
      Change dir ((clusters dir).toFinset ∪ v.free) v v' := by
  have hfile := h.sound.file dir hlive
  have hvalid := h.valid_eq hlive
  have hle := hfile.valid_le
  have hlimit := hfile.size_le_limit h.sound.mounted
  have hroom : v.sb.clustersFor (offset + 32 * count) ≤
      (clusters dir).length + v.free.card := by
    rw [hfile.length_eq]
    exact (clustersFor_mono v.sb (by omega)).trans (Nat.le_add_right _ _)
  obtain ⟨v', cs', hrun, hwritten⟩ := genericPwrite_runs h.sound.mounted hfile
    (h.sound.fresh hlive) (h.sound.inUse dir hlive) (.inl (by omega)) (by omega) hroom entries
  rw [← hlength, ← hdata] at hwritten
  refine ⟨v', _, (getNode_runs dir).bind ((unlessBug_runs hdir).bind (hrun.bind
    (Runs.if_pos rfl (Runs.pure v' _)))), h.of_change hlive hwritten.file hwritten.change
      hwritten.free_eq hwritten.fresh ?_, hwritten.change⟩
  rw [hwritten.text_eq hfile, h.text_eq dir hlive]

end Directory

/-! ## The entries of a node -/

def Node.entries (node : Node) (t : Text) : Buf :=
  t.entries node.entryOffset (1 + node.continuations)

/-- The node has a place in its directory, and entries there from which its name was read. -/
structure Entered (v : View) (d : Store) (n parent : Nat) : Prop where
  parent_eq : (v.nodes n).parent = some parent
  ne : n ≠ parent
  isDir : (v.nodes parent).IsDir
  inside : (v.nodes n).entryOffset + 32 * (1 + (v.nodes n).continuations) ≤ (d.text parent).valid
  set : WellFormedSet v.sb ((v.nodes n).entries (d.text parent)) (1 + (v.nodes n).continuations)
  continuations_eq : (v.nodes n).continuations =
    readLe ((v.nodes n).entries (d.text parent)) 1 1
  name_eq : (v.nodes n).name =
    (Node.zero.parsed ((v.nodes n).entries (d.text parent)) 0 0).name

/-- The bytes that `exfat_flush_node` writes to the directory. -/
def Node.patch (node : Node) (t : Text) : List UInt8 :=
  (List.range (32 * (1 + node.continuations))).map
    (patchEntries node (node.entries t) (1 + node.continuations))

theorem Node.patch_length (node : Node) (t : Text) :
    (node.patch t).length = 32 * (1 + node.continuations) := by
  simp [patch]

section Flushing

variable {live reserved : Nat → Prop} {clusters : Nat → List Nat} {v v' : View} {d : Store}
  {n parent : Nat}

theorem Text.entries_behind (t : Text) {offset count k : Nat} (hk : 32 * count ≤ k) :
    t.entries offset count k = 0 :=
  List.getD_eq_default _ _ (by simp [slice]; omega)

/-- A set has three entries at least, and only the first two are patched. -/
theorem Entered.ofList_patch (h : Entered v d n parent) :
    Buf.ofList ((v.nodes n).patch (d.text parent)) = patchEntries (v.nodes n)
      ((v.nodes n).entries (d.text parent)) (1 + (v.nodes n).continuations) := by
  have hcount := h.set.three_le
  refine ofList_map_range fun k hk => ?_
  rw [patchEntries_of_kept _ _ _ (by omega)]
  exact Text.entries_behind _ hk

/-- Whether a node is dirty makes no difference to the files. -/
theorem Represents.clean (h : Represents live reserved clusters v d) (n : Nat) :
    Represents live reserved clusters
      (v.setNode n { v.nodes n with isDirty := false }) d := by
  by_cases hn : live n
  · have hfile := h.sound.file n hn
    have hchain : Chain (v.setNode n { v.nodes n with isDirty := false }) n (clusters n) :=
      hfile.chain.congr (by rw [VolumeOn.setNode_nodes_self]; exact ⟨rfl, rfl, rfl, rfl⟩)
        (fun _ _ => rfl) rfl
    exact h.kept hn (Kept.setNode hfile (h.sound.fresh hn) hchain rfl rfl rfl rfl)
  · have hv := h.sound.mounted
    refine h.of_agrees ⟨hv.sane, hv.size_eq, hv.chunkSize_eq, hv.zeroCluster_eq⟩ rfl
      (fun m hm => VolumeOn.setNode_nodes_ne _ _ _ ?_) rfl fun _ _ _ _ _ => rfl
    rintro rfl
    exact hn hm

/-- `exfat_flush_node` is a write of the patched entries to the directory. -/
theorem flushNode_runs (h : Represents live reserved clusters v d) (hlive : live parent)
    (hin : v.BitmapIn reserved) (hentered : Entered v d n parent)
    (hdirty : (v.nodes n).isDirty = true) (hro : v.ro = false) :
    ∃ v' clusters', Runs Shows v (flushNode n) 0 v' ∧
      Represents live reserved clusters' v' (d.set parent ((d.text parent).put
        (v.nodes n).entryOffset ((v.nodes n).patch (d.text parent)))) ∧
      (v'.sb = v.sb ∧ v'.heapUsed = v.heapUsed ∧ v'.repair = v.repair) ∧
      (v'.nodes parent).IsDir := by
  have hlength := h.length_eq hlive
  have hvalid := h.valid_eq hlive
  have hle := (h.sound.file parent hlive).valid_le
  have hinside := hentered.inside
  have hroom : (v.nodes n).entryOffset + 32 * (1 + (v.nodes n).continuations) ≤
      (d.text parent).bytes.length := by omega
  obtain ⟨v₁, hread, h₁, hchange⟩ := readEntries_runs h hlive hentered.isDir hroom
  have hnode : v₁.nodes n = v.nodes n := hchange.others n hentered.ne
  have hdir : (v₁.nodes parent).IsDir := by
    rw [Node.IsDir, hchange.identity.attrib_eq]
    exact hentered.isDir
  have hchecked : Runs Shows v₁ (checkEntries ((v.nodes n).entries (d.text parent))
      (1 + (v.nodes n).continuations)) true v₁ :=
    .of_reads fun _ _ => checkEntries_true_iff.mpr ⟨hentered.set.types, rfl⟩
  obtain ⟨v₂, clusters', hwrite, h₂, hchange'⟩ := writeEntries_runs h₁ hlive hdir hinside
    hentered.ofList_patch ((v.nodes n).patch_length _)
  have h₃ := h₂.clean n
  have hsettings := hchange.settings.trans hchange'.settings
  have hin₃ : (v₂.setNode n { v₂.nodes n with isDirty := false }).BitmapIn reserved :=
    hin.mono hsettings.sb_eq hsettings.startCluster_eq
  have hflush := flush_runs h₃.sound.mounted hin₃.start
  refine ⟨_, clusters', ?_, h₃.flushed hin₃, ?_, ?_⟩
  · refine (getNode_runs n).bind (Runs.if_pos hdirty (get_runs fun _ =>
      (unlessBug_runs (by simp [hro])).bind ?_))
    rw [hentered.parent_eq]
    refine hread.bind (Runs.if_neg (by simp) (hchecked.bind (Runs.if_pos rfl
      ((getNode_runs n).bind ?_))))
    rw [hnode]
    exact hwrite.bind (Runs.if_neg (by simp) ((modifyNode_runs n _).bind hflush))
  · simpa using ⟨hsettings.sb_eq, hsettings.heapUsed_eq, hsettings.repair_eq⟩
  · rw [VolumeOn.flushed_nodes, VolumeOn.setNode_nodes_ne _ _ _ hentered.ne.symm, Node.IsDir,
      hchange'.identity.attrib_eq]
    exact hdir

end Flushing

/-! ## Reading the node again -/

/-- The node that is made of the entries of a node; there are no odd seconds of the last access. -/
def Node.reread (node : Node) : Node :=
  { Node.zero with
    fptrCluster := node.startCluster
    entryOffset := node.entryOffset
    startCluster := node.startCluster
    attrib := node.attrib
    continuations := node.continuations
    isContiguous := node.isContiguous
    validSize := node.validSize
    size := node.size
    mtime := node.mtime
    atime := node.atime - node.atime % 2
    name := node.name }

section Reading

variable {live reserved : Nat → Prop} {clusters : Nat → List Nat} {v v' : View} {d d' : Store}
  {n parent : Nat}

theorem Entered.parsed_eq (h : Entered v d n parent) (hconsistent : (v.nodes n).Consistent v.sb)
    (hstorable : (v.nodes n).Storable) :
    ({ Node.zero with entryOffset := (v.nodes n).entryOffset }).parsed
      (patchEntries (v.nodes n) ((v.nodes n).entries (d.text parent))
        (1 + (v.nodes n).continuations)) (v.nodes n).mtime
      ((v.nodes n).atime - (v.nodes n).atime % 2) = (v.nodes n).reread := by
  have hcontinuations := h.continuations_eq
  have hname := h.name_eq
  rw [Node.parsed_patchEntries hconsistent hstorable]
  simp only [Node.parsed, Node.reread] at hname ⊢
  rw [← hcontinuations, hname]

theorem allocateNode_runs (hheap : ¬ v.heapUsed + roundUp (UInt64.ofNat 608) > heapSize) :
    ∃ v' m, Runs Shows v allocateNode (some m) v' ∧ v'.nodes m = Node.zero ∧ v'.sb = v.sb ∧
      v'.repair = v.repair :=
  ⟨_, _, (malloc_runs hheap).bind ((modifyNode_runs _ _).bind (Runs.pure _ _)),
    VolumeOn.setNode_nodes_self .., rfl, rfl⟩

/-- The entries of a node that was flushed are read as the node. -/
theorem parseFileEntry_runs (h : Represents live reserved clusters v' d') (hlive : live parent)
    (hdir : (v'.nodes parent).IsDir) (hsb : v'.sb = v.sb) (hrepair : v'.repair ≠ .yes)
    (hheap : ¬ v'.heapUsed + roundUp (UInt64.ofNat 608) > heapSize)
    (hentered : Entered v d n parent) (hconsistent : (v.nodes n).Consistent v.sb)
    (hstorable : (v.nodes n).Storable) (hdated : (v.nodes n).Dated)
    (htext : d'.text parent = (d.text parent).put (v.nodes n).entryOffset
      ((v.nodes n).patch (d.text parent))) :
    ∃ v'' m, Runs Shows v' (parseFileEntry parent (1 + (v.nodes n).continuations)
        (v.nodes n).entryOffset) (0, some m) v'' ∧
      v''.nodes m = (v.nodes n).reread := by
  have hinside : (v.nodes n).entryOffset + 32 * (1 + (v.nodes n).continuations) ≤
      (d'.text parent).bytes.length := by
    rw [htext, Text.length_put, Node.patch_length]
    exact Nat.le_max_right _ _
  obtain ⟨w, hread, -, hchange⟩ := readEntries_runs h hlive hdir hinside
  have hentries : (d'.text parent).entries (v.nodes n).entryOffset
      (1 + (v.nodes n).continuations) = patchEntries (v.nodes n)
        ((v.nodes n).entries (d.text parent)) (1 + (v.nodes n).continuations) := by
    rw [Text.entries, htext, ← Node.patch_length _ (d.text parent), Text.slice_put,
      hentered.ofList_patch]
  obtain ⟨u, m, hallocate, hzero, husb, hurepair⟩ := allocateNode_runs (v := w)
    (by rwa [hchange.settings.heapUsed_eq])
  let placed := u.setNode m { u.nodes m with entryOffset := (v.nodes n).entryOffset }
  have hplaced : placed.sb = v.sb := (husb.trans hchange.settings.sb_eq).trans hsb
  have hoff : placed.repair ≠ .yes := by
    rw [show placed.repair = v'.repair from hurepair.trans hchange.settings.repair_eq]
    exact hrepair
  have hparse := parseFileEntries_patched (v := placed) (hplaced ▸ hentered.set)
    (hplaced ▸ hconsistent) hstorable hdated hoff m
  rw [hentries] at hread
  refine ⟨_, m, hread.bind (Runs.if_neg (by simp) (hallocate.bind ((modifyNode_runs m _).bind
    (hparse.bind (Runs.if_neg (by simp) (Runs.pure _ _)))))), ?_⟩
  rw [VolumeOn.setNode_nodes_self, VolumeOn.setNode_nodes_self, hzero]
  exact hentered.parsed_eq hconsistent hstorable

/--
What a node became since its entries were read is stored by `exfat_flush_node`, and
`parse_file_entry` makes the same node of it.  No other file is different.
-/
theorem flushed_node_reread {ef : Volume} (hshows : Shows ef v)
    (h : Represents live reserved clusters v d) (hlive : live parent)
    (hin : v.BitmapIn reserved) (hentered : Entered v d n parent)
    (hdirty : (v.nodes n).isDirty = true) (hro : v.ro = false) (hrepair : v.repair ≠ .yes)
    (hheap : ¬ v.heapUsed + roundUp (UInt64.ofNat 608) > heapSize)
    (hconsistent : (v.nodes n).Consistent v.sb) (hstorable : (v.nodes n).Storable)
    (hdated : (v.nodes n).Dated) :
    ∃ ef₁ ef₂ v₁ clusters' m, flushNode n ef = some (0, ef₁) ∧ Shows ef₁ v₁ ∧
      Represents live reserved clusters' v₁ (d.set parent ((d.text parent).put
        (v.nodes n).entryOffset ((v.nodes n).patch (d.text parent)))) ∧
      parseFileEntry parent (1 + (v.nodes n).continuations) (v.nodes n).entryOffset ef₁ =
        some ((0, some m), ef₂) ∧
      ef₂.nodes m = (v.nodes n).reread := by
  obtain ⟨v₁, clusters', hflush, hafter, ⟨hsb, hheap₁, hrepair₁⟩, hdir⟩ :=
    flushNode_runs h hlive hin hentered hdirty hro
  obtain ⟨ef₁, heq₁, hshows₁⟩ := hflush ef hshows
  obtain ⟨v₂, m, hparse, hnode⟩ := parseFileEntry_runs hafter hlive hdir hsb
    (by rwa [hrepair₁]) (by rwa [hheap₁]) hentered hconsistent hstorable hdated
    (by simp [Store.set])
  obtain ⟨ef₂, heq₂, dev, -, rfl⟩ := hparse ef₁ hshows₁
  exact ⟨ef₁, _, v₁, clusters', m, heq₁, hshows₁, hafter, heq₂, hnode⟩

end Reading

/-! ## A small directory -/

/-- Node 1 is a directory, and node 2 will be a file in it whose times have changed. -/
def dirView : View := { mappedView with nodes := fun n =>
  if n = 1 then { emptyNode with attrib := attribDir }
  else { Node.zero.parsed smallSet 1000000000 1000000001 with parent := some 1, isDirty := true } }

def dirVolume : Volume := dirView.on smallVolume.dev

theorem dirVolume_shows : Shows dirVolume dirView := by
  obtain ⟨dev, hdev, heq⟩ := smallVolume_shows
  exact ⟨smallVolume.dev, heq ▸ hdev, rfl⟩

theorem smallSet_behind {k : Nat} (hk : 96 ≤ k) : smallSet k = 0 := by
  unfold smallSet
  split <;> first | omega | rfl

theorem dirView_represents :
    Represents (· = 1) (· = 2) (fun _ => []) dirView (smallStore 7) := by
  have hmounted : Mounted dirView :=
    ⟨smallView_mounted.sane, smallView_mounted.size_eq, smallView_mounted.chunkSize_eq,
      smallView_mounted.zeroCluster_eq⟩
  have hfree : dirView.free = Finset.Ico 3 10 := mappedView_free
  have h := empty_represents (· = 1) (· = 2) hmounted (by decide)
    (fun n hn => ⟨attribDir, if_pos hn⟩) fun c => by
      rw [hfree]
      simp [SuperBlock.Valid, dirView, mappedView, smallView, smallSuperBlock_clusterCount,
        firstDataCluster]
      omega
  rwa [hfree] at h

def smallEntries : List UInt8 := (List.range 96).map smallSet

def dirStore : Store := (applyAll (smallStore 7) [.write 1 smallEntries 0]).2

theorem dirStore_entries : (dirView.nodes 2).entries (dirStore.text 1) = smallSet := by
  have htext : dirStore.text 1 = Text.put 0 smallEntries ⟨[], 0⟩ := by decide +kernel
  have hset : Buf.ofList smallEntries = smallSet := ofList_map_range fun _ => smallSet_behind
  rw [Node.entries, Text.entries, htext, ← hset]
  exact congrArg Buf.ofList (Text.slice_put _ _ smallEntries)

theorem entered_of_written {v : View} (hnode : v.nodes 2 = dirView.nodes 2)
    (hdir : (v.nodes 1).IsDir) (hsb : v.sb = smallSuperBlock) : Entered v dirStore 2 1 := by
  constructor
  case parent_eq => rw [hnode]; rfl
  case ne => decide
  case isDir => exact hdir
  case inside =>
    rw [hnode]
    decide +kernel
  case set =>
    rw [hnode, dirStore_entries, hsb]
    exact smallSet_wellFormed
  case continuations_eq =>
    rw [hnode, dirStore_entries]
    rfl
  case name_eq =>
    rw [hnode, dirStore_entries]
    rfl

/-- The new times of the file are there after its node is made again. -/
theorem small_node_reread :
    ∃ ef₁ ef₂ ef₃ m, runAll [.write 1 smallEntries 0] dirVolume = some ([(96, [])], ef₁) ∧
      flushNode 2 ef₁ = some (0, ef₂) ∧ parseFileEntry 1 3 0 ef₂ = some ((0, some m), ef₃) ∧
      (ef₃.nodes m).mtime = 1000000000 ∧ (ef₃.nodes m).atime = 1000000000 := by
  obtain ⟨v, clusters, hrun, h, huntouched⟩ :=
    runAll_follows [.write 1 smallEntries 0] dirView_represents (by decide +kernel)
  have hnode : v.nodes 2 = dirView.nodes 2 := huntouched.others 2 (by decide)
  have hsettings := huntouched.settings
  have hdir : (v.nodes 1).IsDir := by
    rw [Node.IsDir, (huntouched.identity 1).attrib_eq]
    decide
  have hin : v.BitmapIn (· = 2) :=
    mappedView_bitmapIn.mono hsettings.sb_eq hsettings.startCluster_eq
  have hconsistent : (dirView.nodes 2).Consistent smallSuperBlock :=
    ⟨by decide, by decide, fun _ => by decide, by decide, by decide⟩
  obtain ⟨ef₁, hwrite, hshows⟩ := hrun _ dirVolume_shows
  obtain ⟨ef₂, ef₃, _, _, m, hflush, -, -, hparse, hreread⟩ :=
    flushed_node_reread hshows h rfl hin (entered_of_written hnode hdir hsettings.sb_eq)
      (by rw [hnode]; rfl) hsettings.ro_eq (by rw [hsettings.repair_eq]; decide)
      (by rw [hsettings.heapUsed_eq]; decide)
      (by rw [hnode, hsettings.sb_eq]; exact hconsistent)
      (by rw [hnode]; exact ⟨by decide, by decide, by decide⟩)
      (by rw [hnode]; exact ⟨by decide, by decide⟩)
  rw [hnode] at hparse hreread
  exact ⟨ef₁, ef₂, ef₃, m, hwrite, hflush, hparse, by rw [hreread]; rfl, by rw [hreread]; rfl⟩

end EntropyOS.Libexfat
