import EntropyOS.Libexfat.Entries

/-!
# Which entries are accepted

`parse_file_entries` accepts a set of entries if and only if it is well formed.  The
entries that `exfat_flush_node` writes are, and they are not any more after a change
of one byte.
-/

namespace EntropyOS.Libexfat

open EntropyOS.Foundation

/-! ## The order of the entries -/

def entryTypes (entries : Buf) (n : Nat) : List Int :=
  (List.range n).map fun i => ((entries (32 * i)).toNat : Int)

/-- An entry for the file, one that goes on with it, names, and then tails. -/
def IsFileSet (types : List Int) : Prop :=
  ∃ names tails, types = entryFile :: entryFileInfo :: entryFileName ::
    (List.replicate names entryFileName ++ tails) ∧ ∀ t ∈ tails, entryFileTail ≤ t

section Order

variable {previous current : Int}

theorem mayFollow_none : MayFollow entryNone current ↔ current = entryFile := by
  simp [MayFollow]

theorem mayFollow_file : MayFollow entryFile current ↔ current = entryFileInfo := by
  simp [MayFollow, entryFile, entryNone]

theorem mayFollow_info : MayFollow entryFileInfo current ↔ current = entryFileName := by
  simp [MayFollow, entryFile, entryFileInfo, entryNone]

theorem mayFollow_name : MayFollow entryFileName current ↔
    current = entryFileName ∨ current = entryNone ∨ entryFileTail ≤ current := by
  simp [MayFollow, entryFile, entryFileInfo, entryFileName, entryNone]

theorem mayFollow_tail (hlow : entryFileTail ≤ previous) (hhigh : previous ≤ 0xff) :
    MayFollow previous current ↔ entryFileTail ≤ current ∨ current = entryNone := by
  simp only [entryFileTail] at hlow
  have hnone : previous ≠ entryNone := by simp only [entryNone]; omega
  have hfile : previous ≠ entryFile := by simp only [entryFile]; omega
  have hinfo : previous ≠ entryFileInfo := by simp only [entryFileInfo]; omega
  have hname : previous ≠ entryFileName := by simp only [entryFileName]; omega
  simp only [MayFollow, if_neg hnone, if_neg hfile, if_neg hinfo, if_neg hname]
  rw [if_pos ⟨by simpa only [entryFileTail] using hlow, hhigh⟩]

variable {types : List Int}

theorem isChain_tails (hbytes : ∀ t ∈ types, 0 ≤ t ∧ t ≤ 0xff)
    (hlow : entryFileTail ≤ previous) (hhigh : previous ≤ 0xff) :
    (previous :: (types ++ [entryNone])).IsChain MayFollow ↔ ∀ t ∈ types, entryFileTail ≤ t := by
  induction types generalizing previous with
  | nil => simp [mayFollow_tail hlow hhigh]
  | cons t types ih =>
      obtain ⟨hpos, hle⟩ := hbytes t (List.mem_cons_self ..)
      have hnone : t ≠ entryNone := by simp only [entryNone]; omega
      rw [List.cons_append, List.isChain_cons_cons, mayFollow_tail hlow hhigh,
        List.forall_mem_cons, or_iff_left hnone]
      exact and_congr_right fun htail =>
        ih (fun u hu => hbytes u (List.mem_cons_of_mem _ hu)) htail hle

theorem isChain_names (hbytes : ∀ t ∈ types, 0 ≤ t ∧ t ≤ 0xff) :
    (entryFileName :: (types ++ [entryNone])).IsChain MayFollow ↔
      ∃ names tails, types = List.replicate names entryFileName ++ tails ∧
        ∀ t ∈ tails, entryFileTail ≤ t := by
  induction types with
  | nil =>
      refine iff_of_true (by simp [mayFollow_name]) ⟨0, [], rfl, by simp⟩
  | cons t types ih =>
      obtain ⟨hpos, hle⟩ := hbytes t (List.mem_cons_self ..)
      have hbytes' := fun u hu => hbytes u (List.mem_cons_of_mem t hu)
      have hnone : t ≠ entryNone := by simp only [entryNone]; omega
      rw [List.cons_append, List.isChain_cons_cons, mayFollow_name]
      constructor
      · rintro ⟨rfl | hend | htail, hrest⟩
        · obtain ⟨names, tails, rfl, htails⟩ := (ih hbytes').mp hrest
          exact ⟨names + 1, tails, by simp [List.replicate_succ], htails⟩
        · exact absurd hend hnone
        · have htails := (isChain_tails hbytes' htail hle).mp hrest
          exact ⟨0, t :: types, rfl, List.forall_mem_cons.mpr ⟨htail, htails⟩⟩
      · rintro ⟨names, tails, heq, htails⟩
        cases names with
        | zero =>
            rw [List.replicate_zero, List.nil_append] at heq
            rw [← heq, List.forall_mem_cons] at htails
            exact ⟨.inr (.inr htails.1), (isChain_tails hbytes' htails.1 hle).mpr htails.2⟩
        | succ names =>
            rw [List.replicate_succ, List.cons_append, List.cons.injEq] at heq
            obtain ⟨rfl, hrest⟩ := heq
            exact ⟨.inl rfl, (ih hbytes').mpr ⟨names, tails, hrest, htails⟩⟩

theorem isChain_iff_isFileSet (hbytes : ∀ t ∈ types, 0 ≤ t ∧ t ≤ 0xff) :
    (entryNone :: (types ++ [entryNone])).IsChain MayFollow ↔ IsFileSet types := by
  constructor
  · intro hchain
    rcases types with _ | ⟨a, _ | ⟨b, _ | ⟨c, types⟩⟩⟩ <;>
      simp only [List.nil_append, List.cons_append, List.isChain_cons_cons, mayFollow_none] at hchain
    · exact absurd hchain.1 (by decide)
    · obtain ⟨rfl, hnext, -⟩ := hchain
      exact absurd (mayFollow_file.mp hnext) (by decide)
    · obtain ⟨rfl, hinfo, hnext, -⟩ := hchain
      obtain rfl := mayFollow_file.mp hinfo
      exact absurd (mayFollow_info.mp hnext) (by decide)
    · obtain ⟨rfl, hinfo, hname, hrest⟩ := hchain
      obtain rfl := mayFollow_file.mp hinfo
      obtain rfl := mayFollow_info.mp hname
      obtain ⟨names, tails, rfl, htails⟩ :=
        (isChain_names fun t ht => hbytes t (by simp [ht])).mp hrest
      exact ⟨names, tails, rfl, htails⟩
  · rintro ⟨names, tails, rfl, htails⟩
    simp only [List.cons_append, List.isChain_cons_cons]
    refine ⟨mayFollow_none.mpr rfl, mayFollow_file.mpr rfl, mayFollow_info.mpr rfl, ?_⟩
    exact (isChain_names fun t ht => hbytes t (by simp [ht])).mpr ⟨names, tails, rfl, htails⟩

end Order

section Checking

variable {ef ef' : Volume} {entries : Buf} {n : Nat}

theorem checkEntriesLoop_true_iff (rounds i : Nat) (previous : Int) :
    checkEntriesLoop entries n rounds i previous ef = some (true, ef') ↔
      (previous :: (List.range' i rounds).map (entryType entries n)).IsChain MayFollow ∧
        ef' = ef := by
  induction rounds generalizing i previous with
  | zero =>
      have hrun : checkEntriesLoop entries n 0 i previous ef = some (true, ef) := rfl
      rw [hrun, Option.some_inj, Prod.mk.injEq]
      simp [eq_comm]
  | succ rounds ih =>
      rw [List.range'_succ, List.map_cons, List.isChain_cons_cons, checkEntriesLoop]
      by_cases hfollow : MayFollow previous (entryType entries n i)
      · rw [if_pos hfollow, ih]
        simp [hfollow]
      · rw [if_neg hfollow]
        refine iff_of_false (fun hrun => ?_) fun h => hfollow h.1.1
        obtain ⟨_, _, -, hend⟩ := Program.exists_of_bind hrun
        cases hend

theorem entryTypes_bytes : ∀ t ∈ entryTypes entries n, 0 ≤ t ∧ t ≤ 0xff := by
  intro t ht
  obtain ⟨i, -, rfl⟩ := List.mem_map.mp ht
  have hlt := (entries (32 * i)).toNat_lt
  omega

/-- `check_entries` lets a set of entries of one file through, and nothing else. -/
theorem checkEntries_true_iff :
    checkEntries entries n ef = some (true, ef') ↔
      IsFileSet (entryTypes entries n) ∧ ef' = ef := by
  have hmap : (List.range' 0 (n + 1)).map (entryType entries n) =
      entryTypes entries n ++ [entryNone] := by
    rw [← List.range_eq_range', List.range_succ, List.map_append]
    congr 1
    · exact List.map_congr_left fun i hi => if_pos (List.mem_range.mp hi)
    · simp [entryType]
  rw [checkEntries, checkEntriesLoop_true_iff, hmap, isChain_iff_isFileSet entryTypes_bytes]

end Checking

/-! ## Checks of a node -/

/-- What `check_node` asks of a node. -/
structure Node.Consistent (sb : SuperBlock) (node : Node) : Prop where
  valid_le : node.validSize ≤ node.size
  empty : node.size = 0 → node.startCluster = clusterFree ∧ node.isContiguous = false
  start : 0 < node.size → sb.Valid node.startCluster
  size_le : node.size ≤ sb.clusterCount * sb.clusterSize
  aligned : node.IsDir → node.size % sb.clusterSize = 0

section Node

variable {ef ef' : Volume} {n : Nat}

theorem exfatError_eq (message : String) (ef : Volume) :
    ∃ dev, exfatError message ef =
      some ((), { ef with dev := dev, exfatErrors := ef.exfatErrors + 1 }) :=
  ⟨_, rfl⟩

theorem getName_eq {bytes : List UInt8} (h : getName n ef = some (bytes, ef')) : ef' = ef := by
  have hnode : getNode n ef = some (ef.nodes n, ef) := rfl
  rw [getName, Program.bind_of_some hnode] at h
  cases hname : utf16ToUtf8 ((List.range nameMax).map (ef.nodes n).name) utf8NameBufferMax with
  | ok read =>
      rw [hname] at h
      cases h
      rfl
  | error fault =>
      rw [hname] at h
      obtain ⟨_, _, -, htrap⟩ := Program.exists_of_bind h
      cases htrap

theorem checkNodeFor_repair_eq {bad : Prop} [Decidable bad] {message : String} {fine : Bool}
    (h : checkNodeFor n bad message ef = some (fine, ef')) : ef'.repair = ef.repair := by
  rw [checkNodeFor] at h
  by_cases hbad : bad
  · rw [if_pos hbad] at h
    obtain ⟨name, middle, hname, hrest⟩ := Program.exists_of_bind h
    obtain rfl := getName_eq hname
    obtain ⟨dev, hprint⟩ := exfatError_eq message middle
    rw [Program.bind_of_some hprint] at hrest
    cases hrest
    rfl
  · rw [if_neg hbad] at h
    cases h
    rfl

theorem checkNodeFor_true_iff {bad : Prop} [Decidable bad] {message : String} :
    checkNodeFor n bad message ef = some (true, ef') ↔ ¬ bad ∧ ef' = ef := by
  rw [checkNodeFor]
  by_cases hbad : bad
  · rw [if_pos hbad]
    refine iff_of_false (fun hrun => ?_) fun h => h.1 hbad
    obtain ⟨_, _, -, hprint⟩ := Program.exists_of_bind hrun
    obtain ⟨_, _, -, hend⟩ := Program.exists_of_bind hprint
    cases hend
  · have hrun : (pure true : Program Volume Bool) ef = some (true, ef) := rfl
    rw [if_neg hbad, hrun, Option.some_inj, Prod.mk.injEq]
    simp [hbad, eq_comm]

/-- With repair off, a wrong checksum is never accepted. -/
theorem checkNodeChecksum_true_iff (hrepair : ef.repair ≠ .yes) {actual : UInt16} {stored : Nat} :
    checkNodeChecksum n actual stored ef = some (true, ef') ↔
      actual.toNat = stored ∧ ef' = ef := by
  by_cases hsum : actual.toNat = stored
  · have hfine : checkNodeFor n (actual.toNat ≠ stored)
        "'%s' has invalid checksum (%#hx != %#hx)" ef = some (true, ef) :=
      checkNodeFor_true_iff.mpr ⟨not_not.mpr hsum, rfl⟩
    have hrun : (pure true : Program Volume Bool) ef = some (true, ef) := rfl
    rw [checkNodeChecksum, Program.bind_of_some hfine, if_pos rfl, hrun, Option.some_inj,
      Prod.mk.injEq]
    simp [hsum, eq_comm]
  · refine iff_of_false (fun hrun => ?_) fun h => hsum h.1
    obtain ⟨fine, middle, hfirst, hrest⟩ := Program.exists_of_bind hrun
    have hoff := checkNodeFor_repair_eq hfirst
    have hask : askToFix middle = some (false, middle) := by
      have hrun : askToFix middle = some (decide (middle.repair = .yes), middle) := rfl
      rw [hrun, hoff, decide_eq_false hrepair]
    cases fine with
    | true => exact (checkNodeFor_true_iff.mp hfirst).1 hsum
    | false =>
        rw [if_neg (by simp), Program.bind_of_some hask, if_neg (by simp)] at hrest
        cases hrest

theorem checkNode_true_iff (hrepair : ef.repair ≠ .yes) {actual : UInt16} {entries : Buf} :
    checkNode n actual entries ef = some (true, ef') ↔
      actual.toNat = readLe entries 2 2 ∧ (ef.nodes n).Consistent ef.sb ∧ ef' = ef := by
  constructor
  · intro hrun
    obtain ⟨_, _, hget, hrun⟩ := Program.exists_of_bind hrun
    cases hget
    obtain ⟨valid, ef₁, hvalid, hrun⟩ := Program.exists_of_bind hrun
    obtain ⟨node, ef₁', hnode, hrun⟩ := Program.exists_of_bind hrun
    cases hnode
    obtain ⟨sizes, ef₂, hsizes, hrun⟩ := Program.exists_of_bind hrun
    obtain ⟨empty, ef₃, hempty, hrun⟩ := Program.exists_of_bind hrun
    obtain ⟨start, ef₄, hstart, hrun⟩ := Program.exists_of_bind hrun
    obtain ⟨fits, ef₅, hfits, hrun⟩ := Program.exists_of_bind hrun
    obtain ⟨scattered, ef₆, hscattered, hrun⟩ := Program.exists_of_bind hrun
    obtain ⟨aligned, ef₇, haligned, hrun⟩ := Program.exists_of_bind hrun
    obtain ⟨hall, rfl⟩ := Prod.mk.inj (Option.some.inj hrun)
    simp only [Bool.and_eq_true] at hall
    obtain ⟨⟨⟨⟨⟨⟨rfl, rfl⟩, rfl⟩, rfl⟩, rfl⟩, rfl⟩, rfl⟩ := hall
    obtain ⟨hsum, rfl⟩ := (checkNodeChecksum_true_iff hrepair).mp hvalid
    obtain ⟨hsizes, rfl⟩ := checkNodeFor_true_iff.mp hsizes
    obtain ⟨hempty, rfl⟩ := checkNodeFor_true_iff.mp hempty
    obtain ⟨hstart, rfl⟩ := checkNodeFor_true_iff.mp hstart
    obtain ⟨hfits, rfl⟩ := checkNodeFor_true_iff.mp hfits
    obtain ⟨hscattered, rfl⟩ := checkNodeFor_true_iff.mp hscattered
    obtain ⟨haligned, rfl⟩ := checkNodeFor_true_iff.mp haligned
    refine ⟨hsum, ⟨by omega, fun hzero => ⟨?_, ?_⟩, fun hpos => ?_, by omega, fun hdir => ?_⟩, rfl⟩
    · by_contra hne
      exact hempty ⟨hzero, hne⟩
    · simpa [hzero] using hscattered
    · simpa [hpos] using hstart
    · by_contra hne
      exact haligned ⟨hdir, hne⟩
  · rintro ⟨hsum, ⟨hvalid, hempty, hstart, hsize, haligned⟩, rfl⟩
    have hfine : ∀ {bad : Prop} [Decidable bad] {message : String}, ¬ bad →
        checkNodeFor n bad message ef' = some (true, ef') :=
      fun hbad => checkNodeFor_true_iff.mpr ⟨hbad, rfl⟩
    have hget : (get : Program Volume Volume) ef' = some (ef', ef') := rfl
    have hnode : getNode n ef' = some (ef'.nodes n, ef') := rfl
    have hfree : ¬ ((ef'.nodes n).size = 0 ∧ (ef'.nodes n).startCluster ≠ clusterFree) :=
      fun h => h.2 (hempty h.1).1
    have hinvalid : ¬ ((ef'.nodes n).size > 0 ∧
        ef'.sb.ClusterInvalid (ef'.nodes n).startCluster) :=
      fun h => (SuperBlock.clusterInvalid_iff _).mp h.2 (hstart h.1)
    have hscattered : ¬ ((ef'.nodes n).size = 0 ∧ (ef'.nodes n).isContiguous = true) :=
      fun h => by simp [(hempty h.1).2] at h
    have hdir : ¬ ((ef'.nodes n).IsDir ∧ (ef'.nodes n).size % ef'.sb.clusterSize ≠ 0) :=
      fun h => h.2 (haligned h.1)
    rw [checkNode, Program.bind_of_some hget,
      Program.bind_of_some ((checkNodeChecksum_true_iff hrepair).mpr ⟨hsum, rfl⟩),
      Program.bind_of_some hnode, Program.bind_of_some (hfine (by omega)),
      Program.bind_of_some (hfine hfree), Program.bind_of_some (hfine hinvalid),
      Program.bind_of_some (hfine (by omega)), Program.bind_of_some (hfine hscattered),
      Program.bind_of_some (hfine hdir)]
    rfl

end Node

/-! ## Sets of entries -/

/-- The node that `parse_file_entries` makes, with these times. -/
def Node.parsed (node : Node) (entries : Buf) (mtime atime : Int) : Node :=
  { node with
    attrib := readLe entries 4 2
    continuations := readLe entries 1 1
    mtime := mtime
    atime := atime
    validSize := readLe entries 40 8
    size := readLe entries 56 8
    startCluster := readLe entries 52 4
    fptrCluster := readLe entries 52 4
    isContiguous := decide (readLe entries 33 1 &&& flagContiguous ≠ 0)
    name := fun k => if k < (mandatoryEntries (readLe entries 35 1) - 2) * enameMax then
      nameUnit entries k else node.name k }

/-- It does not matter for the checks which node is overwritten. -/
theorem Node.Consistent.of_parsed {sb : SuperBlock} {a b : Node} {entries : Buf}
    {mtime atime mtime' atime' : Int} (h : (a.parsed entries mtime atime).Consistent sb) :
    (b.parsed entries mtime' atime').Consistent sb :=
  ⟨h.valid_le, h.empty, h.start, h.size_le, h.aligned⟩

/-- The entries of a file, in order and complete, and a node that may be made of them. -/
structure WellFormedSet (sb : SuperBlock) (entries : Buf) (count : Nat) : Prop where
  types : IsFileSet (entryTypes entries count)
  enough : 2 ≤ readLe entries 1 1
  flags : readLe entries 33 1 &&& (0xff - (flagAlways1 ||| flagContiguous)) = 0
  names : mandatoryEntries (readLe entries 35 1) ≤ readLe entries 1 1 + 1
  checksum : (calcChecksum entries count).toNat = readLe entries 2 2
  consistent : (Node.zero.parsed entries 0 0).Consistent sb

section Parsing

variable {ef ef' : Volume} {entries : Buf} {n count : Nat}

theorem exfat2unix_eq (date time centisec tzoffset : Nat) (ef : Volume) :
    ∃ r ef', exfat2unix date time centisec tzoffset ef = some (r, ef') ∧
      ef'.sb = ef.sb ∧ ef'.repair = ef.repair ∧ ef'.nodes = ef.nodes := by
  have hcomplain : ∀ message, ∃ r ef', (do
      exfatError message
      return 0 : Program Volume Int) ef = some (r, ef') ∧
        ef'.sb = ef.sb ∧ ef'.repair = ef.repair ∧ ef'.nodes = ef.nodes := by
    intro message
    obtain ⟨dev, heq⟩ := exfatError_eq message ef
    exact ⟨0, _, Program.bind_of_some heq, rfl, rfl, rfl⟩
  rw [exfat2unix]
  split_ifs
  · exact hcomplain _
  · exact hcomplain _
  · exact hcomplain _
  · exact ⟨_, ef, rfl, rfl, rfl, rfl⟩

theorem modifyNode_eq (n : Nat) (f : Node → Node) (ef : Volume) :
    modifyNode n f ef = some ((), ef.setNode n (f (ef.nodes n))) := rfl

theorem initNode_eq (n count : Nat) (entries : Buf) (ef : Volume) :
    ∃ mtime atime ef₁, ef₁.sb = ef.sb ∧ ef₁.repair = ef.repair ∧
      ef₁.nodes n = (ef.nodes n).parsed entries mtime atime ∧
      initNode n entries count ef = (do
        if ← checkNode n (calcChecksum entries count) entries then
          return 0
        else
          return -eio : Program Volume Int) ef₁ := by
  obtain ⟨mtime, w, hmtime, hsb, hrepair, hnodes⟩ := exfat2unix_eq (readLe entries 14 2)
    (readLe entries 12 2) (readLe entries 21 1) (readLe entries 23 1) ef
  obtain ⟨atime, w', hatime, hsb', hrepair', hnodes'⟩ := exfat2unix_eq (readLe entries 18 2)
    (readLe entries 16 2) 0 (readLe entries 24 1) w
  have hmeta1 : initNodeMeta1 n entries ef = modifyNode n _ w' :=
    (Program.bind_of_some hmtime).trans (Program.bind_of_some hatime)
  refine ⟨mtime, atime, w'.setNode n ((ef.nodes n).parsed entries mtime atime),
    hsb'.trans hsb, hrepair'.trans hrepair, by simp, ?_⟩
  rw [initNode, Program.bind_of_some (hmeta1.trans (modifyNode_eq ..)),
    initNodeMeta2, Program.bind_of_some (modifyNode_eq ..), initNodeName,
    Program.bind_of_some (modifyNode_eq ..)]
  simp only [VolumeOn.setNode_setNode, VolumeOn.setNode_nodes_self, hnodes', hnodes]
  rfl

theorem initNode_zero_iff (hrepair : ef.repair ≠ .yes) :
    Returns (initNode n entries count) ef 0 ↔
      (calcChecksum entries count).toNat = readLe entries 2 2 ∧
        (Node.zero.parsed entries 0 0).Consistent ef.sb := by
  obtain ⟨mtime, atime, ef₁, hsb, hoff, hnode, hinit⟩ := initNode_eq n count entries ef
  have hchecked : ∀ {ef'}, checkNode n (calcChecksum entries count) entries ef₁ =
      some (true, ef') ↔ (calcChecksum entries count).toNat = readLe entries 2 2 ∧
        (Node.zero.parsed entries 0 0).Consistent ef.sb ∧ ef' = ef₁ := by
    intro ef'
    have hoff₁ : ef₁.repair ≠ .yes := by rwa [hoff]
    rw [checkNode_true_iff hoff₁, hsb, hnode]
    exact and_congr_right fun _ => and_congr_left fun _ => ⟨.of_parsed, .of_parsed⟩
  rw [Returns, hinit]
  constructor
  · rintro ⟨ef', hrun⟩
    obtain ⟨fine, middle, hcheck, hrest⟩ := Program.exists_of_bind hrun
    cases fine with
    | true =>
        obtain ⟨hsum, hconsistent, -⟩ := hchecked.mp hcheck
        exact ⟨hsum, hconsistent⟩
    | false => cases hrest
  · rintro ⟨hsum, hconsistent⟩
    exact ⟨ef₁, Program.bind_of_some (hchecked.mpr ⟨hsum, hconsistent, rfl⟩)⟩

theorem not_returns_error (message : String) : ¬ Returns (do
    exfatError message
    return -eio : Program Volume Int) ef 0 := by
  rintro ⟨ef', hrun⟩
  obtain ⟨_, _, -, hend⟩ := Program.exists_of_bind hrun
  cases hend

theorem WellFormedSet.accepted (h : WellFormedSet ef.sb entries count) (hrepair : ef.repair ≠ .yes) :
    Returns (parseFileEntries n entries count) ef 0 := by
  have henough := h.enough
  have hnames := h.names
  rw [Returns, parseFileEntries,
    Program.bind_of_some (checkEntries_true_iff.mpr ⟨h.types, rfl⟩), if_pos rfl,
    if_neg (by omega), if_neg (by simpa using h.flags), if_neg (by omega)]
  exact (initNode_zero_iff hrepair).mpr ⟨h.checksum, h.consistent⟩

theorem wellFormedSet_of_accepted (hrepair : ef.repair ≠ .yes)
    (h : Returns (parseFileEntries n entries count) ef 0) : WellFormedSet ef.sb entries count := by
  obtain ⟨ef', hrun⟩ := h
  obtain ⟨ordered, middle, horder, hrest⟩ := Program.exists_of_bind hrun
  cases ordered with
  | false => cases hrest
  | true =>
      obtain ⟨htypes, rfl⟩ := checkEntries_true_iff.mp horder
      rw [if_pos rfl] at hrest
      by_cases henough : readLe entries 1 1 < 2
      · rw [if_pos henough] at hrest
        exact absurd ⟨_, hrest⟩ (not_returns_error _)
      by_cases hflags : readLe entries 33 1 &&& (0xff - (flagAlways1 ||| flagContiguous)) ≠ 0
      · rw [if_neg henough, if_pos hflags] at hrest
        exact absurd ⟨_, hrest⟩ (not_returns_error _)
      by_cases hnames : readLe entries 1 1 < mandatoryEntries (readLe entries 35 1) - 1
      · rw [if_neg henough, if_neg hflags, if_pos hnames] at hrest
        exact absurd ⟨_, hrest⟩ (not_returns_error _)
      rw [if_neg henough, if_neg hflags, if_neg hnames] at hrest
      obtain ⟨hsum, hconsistent⟩ := (initNode_zero_iff hrepair).mp ⟨_, hrest⟩
      exact ⟨htypes, by omega, by simpa using hflags, by omega, hsum, hconsistent⟩

/-- `parse_file_entries` accepts the sets that are well formed, and no others. -/
theorem parseFileEntries_zero_iff (hrepair : ef.repair ≠ .yes) :
    Returns (parseFileEntries n entries count) ef 0 ↔ WellFormedSet ef.sb entries count :=
  ⟨wellFormedSet_of_accepted hrepair, fun h => h.accepted hrepair⟩

/-- A set that is accepted is refused after any change of one byte. -/
theorem damaged_entries_refused (hrepair : ef.repair ≠ .yes) (hrepair' : ef'.repair ≠ .yes)
    (haccepted : Returns (parseFileEntries n entries count) ef 0) {entries' : Buf} {n' k : Nat}
    (hk : k < 32 * count) (hne : entries k ≠ entries' k)
    (hsame : ∀ j < 32 * count, j ≠ k → entries j = entries' j) :
    ¬ Returns (parseFileEntries n' entries' count) ef' 0 := by
  intro hdamaged
  have hold := (wellFormedSet_of_accepted hrepair haccepted).checksum
  have hnew := (wellFormedSet_of_accepted hrepair' hdamaged).checksum
  by_cases hstored : k = 2 ∨ k = 3
  · have hsum : calcChecksum entries count = calcChecksum entries' count :=
      calcChecksum_congr (by omega) fun j hj => by
        obtain ⟨hlt, hkept⟩ := mem_summed.mp hj
        exact hsame j hlt (by omega)
    have hword : readLe entries 2 2 = readLe entries' 2 2 := by rw [← hold, ← hnew, hsum]
    have hbyte := byteOf_readLe entries 2 (show k - 2 < 2 by omega)
    rw [hword, byteOf_readLe entries' 2 (by omega), show 2 + (k - 2) = k by omega] at hbyte
    exact hne hbyte.symm
  · have hword : readLe entries 2 2 = readLe entries' 2 2 :=
      readLe_congr fun i hi => hsame _ (by omega) (by omega)
    refine calcChecksum_ne (mem_summed.mpr ⟨hk, by omega⟩) hne hsame ?_
    exact UInt16.toNat_inj.mp (by rw [hold, hnew, hword])

end Parsing

/-! ## The set of a small file -/

/-- A file of 100 bytes with the name `A`. -/
def smallSet : Buf := fun k => match k with
  | 0 => 0x85
  | 1 => 2
  | 2 => 0x07
  | 3 => 0x9e
  | 4 => 0x20
  | 32 => 0xc0
  | 33 => 1
  | 35 => 1
  | 40 => 100
  | 52 => 5
  | 56 => 100
  | 64 => 0xc1
  | 66 => 0x41
  | _ => 0

theorem smallSet_wellFormed : WellFormedSet smallSuperBlock smallSet 3 where
  types := ⟨0, [], by decide, by simp⟩
  enough := by decide
  flags := by decide
  names := by decide
  checksum := by decide +kernel
  consistent := ⟨by decide, by decide, fun _ => by decide, by decide, by decide⟩

theorem small_set_accepted : Returns (parseFileEntries 1 smallSet 3) smallVolume 0 :=
  (parseFileEntries_zero_iff (by decide)).mpr smallSet_wellFormed

/-- The name is another one, and the checksum is the old one. -/
theorem renamed_set_refused :
    ¬ Returns (parseFileEntries 1 (Function.update smallSet 66 0x42) 3) smallVolume 0 :=
  have hrepair : smallVolume.repair ≠ .yes := by decide
  damaged_entries_refused hrepair hrepair (smallSet_wellFormed.accepted (n := 1) hrepair) (show 66 < 32 * 3 by omega) (by simp [smallSet])
    fun j _ hne => (Function.update_of_ne hne _ _).symm

/-! ## The entries of a node -/

section Patching

variable {sb : SuperBlock} {node : Node} {entries : Buf} {count : Nat}

/-- The types, the continuations, the length of the name and the names stay. -/
theorem patchEntries_of_kept (node : Node) (entries : Buf) (count : Nat) {k : Nat}
    (hk : k < 2 ∨ k = 32 ∨ k = 35 ∨ 64 ≤ k) : patchEntries node entries count k = entries k := by
  simp (disch := omega) only [patchEntries, stampEntries, storeLe_of_not_mem]

theorem entryTypes_patchEntries : entryTypes (patchEntries node entries count) count =
    entryTypes entries count :=
  List.map_congr_left fun i _ => by rw [patchEntries_of_kept _ _ _ (by omega)]

theorem unix2exfat_lt (time : Int) : (unix2exfat time).date < 65536 ∧
    (unix2exfat time).time < 65536 ∧ (unix2exfat time).centisec < 256 := by
  refine ⟨Nat.mod_lt _ (by decide), ?_, ?_⟩
  · simp only [unix2exfat]
    rw [packed_time (by omega) (by omega)]
    omega
  · simp only [unix2exfat]
    omega

theorem calcChecksum_patchEntries (hcount : 0 < count) :
    (calcChecksum (patchEntries node entries count) count).toNat =
      readLe (patchEntries node entries count) 2 2 := by
  have hsum : calcChecksum (patchEntries node entries count) count =
      calcChecksum (stampEntries node entries) count :=
    calcChecksum_congr hcount fun k hk => by
      obtain ⟨-, hkept⟩ := mem_summed.mp hk
      exact storeLe_of_not_mem (by omega)
  rw [hsum, patchEntries, readLe_storeLe_same]
  exact (Nat.mod_eq_of_lt (UInt16.toNat_lt _)).symm

/-- The flags of the second entry, which say whether the file is contiguous. -/
theorem flags_patchEntries (hconsistent : node.Consistent sb) :
    readLe (patchEntries node entries count) 33 1 &&&
        (0xff - (flagAlways1 ||| flagContiguous)) = 0 ∧
      decide (readLe (patchEntries node entries count) 33 1 &&& flagContiguous ≠ 0) =
        node.isContiguous := by
  have hflags : readLe (patchEntries node entries count) 33 1 =
      if node.size ≠ 0 ∧ node.isContiguous then flagAlways1 ||| flagContiguous
      else flagAlways1 := by
    simp only [patchEntries, stampEntries, readLe_storeLe_same,
      readLe_storeLe_disjoint _ (show 33 + 1 ≤ 2 ∨ 2 + 2 ≤ 33 by omega)]
    split <;> rfl
  rw [hflags]
  by_cases hcontiguous : node.size ≠ 0 ∧ node.isContiguous = true
  · rw [if_pos hcontiguous, hcontiguous.2]
    decide
  · have hscattered : node.isContiguous = false := by
      by_cases hzero : node.size = 0
      · exact (hconsistent.empty hzero).2
      · simpa [hzero] using hcontiguous
    rw [if_neg hcontiguous, hscattered]
    decide

/-- A node whose numbers fit in the fields of its entries. -/
structure Node.Storable (node : Node) : Prop where
  attrib_lt : node.attrib < 2 ^ 16
  size_lt : node.size < 2 ^ 64
  start_lt : node.startCluster < 2 ^ 32

/-- What is written for a node is read as the node, with the times that are read. -/
theorem Node.parsed_patchEntries (hconsistent : node.Consistent sb) (hstorable : node.Storable)
    (node' : Node) (mtime atime : Int) :
    node'.parsed (patchEntries node entries count) mtime atime =
      { node'.parsed entries mtime atime with
        attrib := node.attrib
        validSize := node.validSize
        size := node.size
        startCluster := node.startCluster
        fptrCluster := node.startCluster
        isContiguous := node.isContiguous } := by
  have hvalid := hconsistent.valid_le
  have hsize := hstorable.size_lt
  have hattrib : readLe (patchEntries node entries count) 4 2 = node.attrib := by
    simpa [patchEntries, stampEntries, readLe_storeLe_disjoint, readLe_storeLe_same] using
      hstorable.attrib_lt
  have hstart : readLe (patchEntries node entries count) 52 4 = node.startCluster := by
    simpa [patchEntries, stampEntries, readLe_storeLe_disjoint, readLe_storeLe_same] using
      hstorable.start_lt
  have hsizes : readLe (patchEntries node entries count) 40 8 = node.validSize ∧
      readLe (patchEntries node entries count) 56 8 = node.size := by
    simp only [patchEntries, stampEntries]
    simp [readLe_storeLe_disjoint, readLe_storeLe_same]
    omega
  have hkept : ∀ offset width, offset + width ≤ 2 ∨ (offset = 35 ∧ width = 1) ∨ 64 ≤ offset →
      readLe (patchEntries node entries count) offset width = readLe entries offset width :=
    fun offset width h => readLe_congr fun i hi => patchEntries_of_kept _ _ _ (by omega)
  have hname : nameUnit (patchEntries node entries count) = nameUnit entries := by
    funext k
    simp only [nameUnit]
    generalize k / enameMax = i
    generalize k % enameMax = j
    rw [hkept _ _ (by omega)]
  simp only [Node.parsed, hattrib, hstart, hsizes, hname, (flags_patchEntries hconsistent).2,
    hkept 1 1 (by omega), hkept 35 1 (by omega)]

theorem WellFormedSet.three_le (h : WellFormedSet sb entries count) : 3 ≤ count := by
  obtain ⟨names, tails, htypes, -⟩ := h.types
  have hlength := congrArg List.length htypes
  simp [entryTypes] at hlength
  omega

theorem WellFormedSet.patched (h : WellFormedSet sb entries count)
    (hconsistent : node.Consistent sb) (hstorable : node.Storable) :
    WellFormedSet sb (patchEntries node entries count) count := by
  have hone : readLe (patchEntries node entries count) 1 1 = readLe entries 1 1 :=
    readLe_congr fun i hi => patchEntries_of_kept _ _ _ (by omega)
  have hlength : readLe (patchEntries node entries count) 35 1 = readLe entries 35 1 :=
    readLe_congr fun i hi => patchEntries_of_kept _ _ _ (by omega)
  constructor
  case types =>
    rw [entryTypes_patchEntries]
    exact h.types
  case enough =>
    rw [hone]
    exact h.enough
  case flags => exact (flags_patchEntries hconsistent).1
  case names =>
    rw [hone, hlength]
    exact h.names
  case checksum =>
    have hcount := h.three_le
    exact calcChecksum_patchEntries (by omega)
  case consistent =>
    rw [Node.parsed_patchEntries hconsistent hstorable]
    exact ⟨hconsistent.valid_le, hconsistent.empty, hconsistent.start, hconsistent.size_le,
      hconsistent.aligned⟩

structure Node.Dated (node : Node) : Prop where
  mtime : epochDiffSec ≤ node.mtime ∧ node.mtime < stampLimit
  atime : epochDiffSec ≤ node.atime ∧ node.atime < stampLimit

section Runs

variable {v : View}

/-- The times that are read from the entries; there are no odd seconds of the last access. -/
theorem stamps_runs (hdated : node.Dated) (entries : Buf) (count : Nat) :
    Runs Shows v (exfat2unix (readLe (patchEntries node entries count) 14 2)
        (readLe (patchEntries node entries count) 12 2)
        (readLe (patchEntries node entries count) 21 1)
        (readLe (patchEntries node entries count) 23 1)) node.mtime v ∧
      Runs Shows v (exfat2unix (readLe (patchEntries node entries count) 18 2)
        (readLe (patchEntries node entries count) 16 2) 0
        (readLe (patchEntries node entries count) 24 1)) (node.atime - node.atime % 2) v := by
  obtain ⟨hmdate, hmtime, hmcenti⟩ := unix2exfat_lt node.mtime
  obtain ⟨hadate, hatime, -⟩ := unix2exfat_lt node.atime
  constructor
  · have hread := readBack_runs v hdated.mtime.2
    rw [max_eq_left hdated.mtime.1, readBack] at hread
    have hzone : (unix2exfat node.mtime).tzoffset % 256 = (unix2exfat node.mtime).tzoffset := rfl
    simpa [patchEntries, stampEntries, readLe_storeLe_disjoint, readLe_storeLe_same,
      Nat.mod_eq_of_lt hmdate, Nat.mod_eq_of_lt hmtime, Nat.mod_eq_of_lt hmcenti, hzone] using hread
  · have hread := stamp_runs (v := v) hdated.atime.2 (show 0 ≤ 199 by omega)
    have hsecond : epochDiffSec + (stampSecond node.atime - stampSecond node.atime % 2) +
        ((0 / 100 : Nat) : Int) = node.atime - node.atime % 2 := by
      have hlow := hdated.atime.1
      have hepoch : epochDiffSec = 315532800 := rfl
      simp only [stampSecond]
      omega
    have hzone : (unix2exfat node.atime).tzoffset % 256 = 0x80 := rfl
    rw [hsecond] at hread
    simpa [patchEntries, stampEntries, readLe_storeLe_disjoint, readLe_storeLe_same,
      Nat.mod_eq_of_lt hadate, Nat.mod_eq_of_lt hatime, hzone] using hread

theorem parseFileEntries_patched (h : WellFormedSet v.sb entries count)
    (hconsistent : node.Consistent v.sb) (hstorable : node.Storable) (hdated : node.Dated)
    (hrepair : v.repair ≠ .yes) (n : Nat) :
    Runs Shows v (parseFileEntries n (patchEntries node entries count) count) 0
      (v.setNode n ((v.nodes n).parsed (patchEntries node entries count) node.mtime
        (node.atime - node.atime % 2))) := by
  have hset := h.patched hconsistent hstorable
  obtain ⟨hmtime, hatime⟩ := stamps_runs (v := v) hdated entries count
  generalize patchEntries node entries count = stored at *
  have hchecked : Runs Shows v (checkEntries stored count) true v :=
    .of_reads fun _ _ => checkEntries_true_iff.mpr ⟨hset.types, rfl⟩
  have hmeta1 : Runs Shows v (initNodeMeta1 n stored) () _ :=
    hmtime.bind (hatime.bind (modifyNode_runs n _))
  have hnode : Runs Shows v (initNode n stored count) 0
      (v.setNode n ((v.nodes n).parsed stored node.mtime (node.atime - node.atime % 2))) := by
    refine hmeta1.bind ((modifyNode_runs n _).bind ((modifyNode_runs n _).bind ?_))
    simp only [VolumeOn.setNode_setNode, VolumeOn.setNode_nodes_self]
    refine Runs.bind (.of_reads ?_) (Runs.if_pos rfl (Runs.pure _ _))
    rintro _ ⟨d, -, rfl⟩
    refine (checkNode_true_iff hrepair).mpr ⟨hset.checksum, ?_, rfl⟩
    have hsame : (VolumeOn.on (v.setNode n ((v.nodes n).parsed stored node.mtime
        (node.atime - node.atime % 2))) d).nodes n =
          (v.nodes n).parsed stored node.mtime (node.atime - node.atime % 2) := by simp
    exact hsame ▸ hset.consistent.of_parsed
  refine hchecked.bind (Runs.if_pos rfl (Runs.if_neg ?_ (Runs.if_neg ?_ (Runs.if_neg ?_ hnode))))
  · exact Nat.not_lt.mpr hset.enough
  · simpa using hset.flags
  · have hnames := hset.names
    omega

end Runs

end Patching

end EntropyOS.Libexfat
