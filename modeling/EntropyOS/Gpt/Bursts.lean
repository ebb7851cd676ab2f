import EntropyOS.Gpt.Checks

/-!
# Bursts of corrupted bytes

Four bytes are as wide as the register of the checksum, so no change that lies
within four consecutive bytes escapes it, and `gpt_verify` rejects a partition
array that was changed so.
-/

namespace EntropyOS.Gpt

open EntropyOS.Foundation

/-- Some of the `length` bytes differ, and those that do lie at `p` to `p + 3`. -/
structure Burst (data data' : Buf) (length p : Nat) : Prop where
  changed : ∃ i < length, data i ≠ data' i
  confined : ∀ i < length, data i ≠ data' i → p ≤ i ∧ i < p + 4

theorem crc32_ne_of_burst {data data' : Buf} {length p : Nat}
    (h : Burst data data' length p) : crc32 data length ≠ crc32 data' length := by
  obtain ⟨i, hi, hne⟩ := h.changed
  obtain ⟨hlow, hhigh⟩ := h.confined i hi hne
  have hsame : ∀ j < length, ¬ (p ≤ j ∧ j < p + 4) → data j = data' j := by
    intro j hj hout
    by_contra hdiffer
    exact hout (h.confined j hj hdiffer)
  obtain ⟨count, more, hlength, hcount, hrest⟩ : ∃ count more,
      length = p + count + more ∧ count ≤ 4 ∧ (more = 0 ∨ count = 4) :=
    ⟨min 4 (length - p), length - p - min 4 (length - p), by omega, by omega, by omega⟩
  rw [hlength]
  apply crc32_ne_of_split more
  · have hbefore : crc32From data 0 p 0xFFFFFFFF = crc32From data' 0 p 0xFFFFFFFF :=
      crc32From_congr _ fun j _ hj => hsame j (by omega) (by omega)
    rw [crc32From_append, crc32From_append, hbefore, Nat.zero_add]
    exact fun heq => hne (crc32From_inj_of_short hcount heq i hlow (by omega))
  · exact fun j hj hend => hsame j (by omega) (by omega)

theorem gptVerify_of_array_ne {s : System}
    (h : s.gpt.arrayCrc ≠ s.gpt.header.partitionArrayCrc32) :
    gptVerify s = some (-1, s) := by
  unfold gptVerify
  rw [Program.bind_of_some (getGpt_apply s)]
  dsimp only
  split_ifs
  · rfl
  · rfl
  · rfl

/--
Every burst changes the checksum.  Where the header holds the checksum of the
array as it was, `gpt_verify` fails once a burst hit the array.
-/
theorem bursts_are_caught :
    (∀ (data data' : Buf) (length p : Nat), Burst data data' length p →
      crc32 data length ≠ crc32 data' length) ∧
    ∀ (s s' : System) (p : Nat),
      s.gpt.arrayCrc = s.gpt.header.partitionArrayCrc32 →
      s'.gpt.header = s.gpt.header →
      Burst s.gpt.partitionBytes s'.gpt.partitionBytes (128 * 128) p →
      gptVerify s' = some (-1, s') := by
  refine ⟨fun _ _ _ _ => crc32_ne_of_burst, fun s s' p harray hheader hburst => ?_⟩
  apply gptVerify_of_array_ne
  rw [hheader, ← harray]
  exact (crc32_ne_of_burst hburst).symm

/-- The entry of slot 3 with a wrong first byte. -/
def struck : Fin 128 → Entry :=
  Function.update (fun _ => Entry.zero) 3
    { Entry.zero with typeGuid := Function.update (fun _ => 0) 0 1 }

/-- A sealed empty table of which byte 384 of the array was hit. -/
theorem bursts_are_caught_in_slot_three :
    let sealed : Statics := { Statics.startup.sealTable with initialized := true }
    let hit : Statics := { sealed with partitions := struck }
    let s : System := System.startup fun _ => Sector.zero
    Burst sealed.partitionBytes hit.partitionBytes (128 * 128) 384 ∧
      gptVerify { s with gpt := hit } = some (-1, { s with gpt := hit }) := by
  intro sealed hit s
  have hentry : ∀ k < 128, k ≠ 0 → (struck 3).toBytes k = Entry.zero.toBytes k := by
    decide +kernel
  have hburst : Burst sealed.partitionBytes hit.partitionBytes (128 * 128) 384 := by
    constructor
    case changed => exact ⟨384, by decide, by decide +kernel⟩
    case confined =>
      intro i hi hne
      by_contra hout
      apply hne
      have hlt : i < 16384 := hi
      simp only [Statics.partitionBytes, dif_pos hlt]
      by_cases hslot : i / 128 = 3
      · have hfin : (⟨i / 128, by omega⟩ : Fin 128) = 3 := Fin.ext hslot
        rw [hfin]
        exact (hentry _ (by omega) (by omega)).symm
      · have hfin : (⟨i / 128, by omega⟩ : Fin 128) ≠ 3 := by
          intro heq
          exact hslot (congrArg Fin.val heq)
        have hkept : struck ⟨i / 128, by omega⟩ = Entry.zero := by
          rw [struck, Function.update_of_ne hfin]
        exact congrArg (fun entry : Entry => entry.toBytes (i % 128)) hkept.symm
  have harray : sealed.arrayCrc = sealed.header.partitionArrayCrc32 :=
    Statics.startup.sealTable_arrayCrc
  exact ⟨hburst, bursts_are_caught.2 { s with gpt := sealed } _ 384 harray rfl hburst⟩

end EntropyOS.Gpt
