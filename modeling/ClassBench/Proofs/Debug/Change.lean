import ClassBench.Assembly.Script
import ClassBench.Proofs.Crc32
import ClassBench.Proofs.Debug.Effects

/-! What the flag of a debug run says about a change.  The flag compares the checks of both sides,
so that it misses a change exactly where the generator divides the difference of the sides. -/

namespace ClassBench.DebugDriver

theorem changed_of_run {d : DebugDriver} {input : Bytes} {a a' : Artifacts} {r : DebugReport}
    (ran : d.run input a = .ok r a') :
    ∃ output, d.transform d.world d.scope input = .ok output ∧
      r.changed = (Crc32.checksum input != Crc32.checksum output) := by
  obtain ⟨s, -, rfl, -, -⟩ := sides_of_run ran
  exact ⟨s.output, s.transformed, rfl⟩

/-- A run that reports misses a change exactly if the generator of the check divides the difference
of both sides.  It never reports a change where there is none, and of the changes that replace at
most four bytes in a row by as many it misses none. -/
theorem change_missed_iff (d : DebugDriver) (input : Bytes) (a a' : Artifacts) (r : DebugReport)
    (ran : d.run input a = .ok r a') :
    ∃ output, d.transform d.world d.scope input = .ok output ∧
      (r.changed = false ↔
        Crc32.generator ∣ Crc32.codeword input - Crc32.codeword output) ∧
      (r.changed = true → output ≠ input) ∧
      ∀ front old new back, input = front ++ old ++ back → output = front ++ new ++ back →
        old.length = new.length → old.length ≤ 4 → (r.changed = true ↔ output ≠ input) := by
  obtain ⟨output, transformed, flag⟩ := changed_of_run ran
  have missed : r.changed = false ↔ Crc32.checksum input = Crc32.checksum output := by
    rw [flag, bne_eq_false_iff_eq]
  have sound : r.changed = true → output ≠ input := by
    rintro told rfl
    rw [missed.mpr rfl] at told
    contradiction
  refine ⟨output, transformed, missed.trans Crc32.checksum_eq_iff, sound, ?_⟩
  rintro front old new back rfl rfl length short
  refine ⟨sound, fun apart => ?_⟩
  rw [flag, bne_iff_ne]
  exact fun same => apart (by rw [Crc32.checksum_append_inj length short same])

theorem change_missed_iff_renamed :
    let d : DebugDriver :=
      { transform := .constant (ClassFile.new "B" objectName).encode
        dir := "out", sink := .memory, world := {}, scope := ⟨0⟩ }
    ∃ r a', d.run (ClassFile.new "A" objectName).encode {} = .ok r a' ∧ r.changed = true := by
  intro d
  have reported : reports (fun _ _ => true)
      (d.run (ClassFile.new "A" objectName).encode {}) := by decide +kernel
  obtain ⟨r, a', ran, -⟩ := exists_of_reports reported
  obtain ⟨output, transformed, -, -, short⟩ := change_missed_iff d _ {} a' r ran
  obtain rfl : (ClassFile.new "B" objectName).encode = output := by
    cases transformed
    rfl
  have changed := short ((ClassFile.new "A" objectName).encode.take 13) [65] [66]
    ((ClassFile.new "A" objectName).encode.drop 14) (by decide +kernel) (by decide +kernel) rfl
    (by decide)
  exact ⟨r, a', ran, changed.mpr (by decide +kernel)⟩

/-- Two classes that differ in an unused constant alone, and have the same check. -/
theorem equal_checks_hide_change :
    let side (n : Int64) := (ClassFile.assembled "A" objectName [.pool (.push (.long n))]).encode
    let d : DebugDriver :=
      { transform := .constant (side 279280999169)
        dir := "out", sink := .memory, world := {}, scope := ⟨0⟩ }
    ∃ r a', d.run (side 0) {} = .ok r a' ∧
      d.transform d.world d.scope (side 0) = .ok (side 279280999169) ∧
      side 279280999169 ≠ side 0 ∧ r.changed = false := by
  intro side d
  have reported : reports (fun r _ => !r.changed) (d.run (side 0) {}) := by decide +kernel
  obtain ⟨r, a', ran, untold⟩ := exists_of_reports reported
  exact ⟨r, a', ran, rfl, by decide +kernel, Bool.eq_false_iff.mpr (by simpa using untold)⟩

end ClassBench.DebugDriver
