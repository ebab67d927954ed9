import GreenBag.Requests

/-! How far the file is guessed to be complete, and what is announced of it. -/

namespace GreenBag

open Programs Ranges Schedules

/-- As long as no share overflows, each call of `update_inorder_offset` finds an offset that is not ahead
of the data exactly if its guess fits; where all do, the offset of the session is not ahead of them
either. -/
theorem inorder_complete_iff {s : Session} (h : s.Seen) (hf : s.Fits) (hw : s.All Event.WritesAll) :
    (∀ s' held value, .inorder s' held value ∈ s.trace →
      (s'.CompleteTo value ↔ GuessRight s' held)) ∧
    (s.Reached → s.All Event.GuessesRight → s.CompleteTo s.inorderOffset) := by
  refine ⟨(h.sincere hf).guess hw, fun hr hg => ?_⟩
  exact ((hr.inv hf).log.complete fun e he => ⟨hw e he, hg e he⟩).1

/-- Two connections that are read in turn, without recovery. -/
theorem inorder_complete_iff_of_two : ∃ s : Session, s.inorderOffset = 8 ∧
    (∀ s' held value, .inorder s' held value ∈ s.trace →
      (s'.CompleteTo value ↔ GuessRight s' held)) ∧
    (s.Reached → s.All Event.GuessesRight → s.CompleteTo s.inorderOffset) := by
  obtain ⟨s, hs, hf, hw, hi⟩ := exists_of_reaches plainConf 16
    (upSteps .lte ++ upSteps .wifi ++ [readStep .wifi 4, readStep .lte 4])
    (P := fun s => s.Fits ∧ s.All Event.WritesAll ∧ s.inorderOffset = 8) (by decide +kernel) (by decide)
    (by decide +kernel)
  exact ⟨s, hi, inorder_complete_iff (.inl hs) hf hw⟩

example : Reaches (fun s => s.inorderOffset = 8)
    (run plainConf 16 (upSteps .lte ++ upSteps .wifi ++ [readStep .lte 4, readStep .wifi 4])) := by
  decide +kernel

/-- The first connection is a segment ahead and takes over what the second one has left. Both go on,
and the second one is done while the first has not come to what it took over. -/
def overtakingSteps : List Label :=
  upSteps .lte ++ upSteps .wifi ++ [readStep .wifi 1, readStep .lte 600, readStep .lte 541,
    .read .lte (.bytes 1 true) lateInputs, readStep .wifi 1200]

/-- The in-order offset is ahead of byte 601. -/
theorem inorder_ahead_of_data : ∃ s : Session, s.Reached ∧ s.Fits ∧ s.All Event.WritesAll ∧
    s.ready = .no ∧ 601 < s.inorderOffset ∧ cover s.outfile 601 = 0 := by
  exact exists_of_reaches recoveringConf 3600 overtakingSteps (by decide +kernel) (by decide)
    (by decide +kernel)

/-- What is announced is complete as long as no share overflows, all guesses fit and no announcement is
made for a session that ended early. -/
theorem announced_complete {s : Session} (h : s.Reached) (hf : s.Fits)
    (ha : s.All fun e => e.GuessesRight ∧ e.AnnouncedInTime) :
    ∀ s' value, .announced s' value ∈ s.trace → s'.CompleteTo value ∧ value ≤ s'.size :=
  (h.inv hf).log.announced ha

/-- The whole file is read and announced. -/
theorem announced_complete_of_whole : ∃ s : Session, s.lastDownloadedByte = 8 ∧
    ∀ s' value, .announced s' value ∈ s.trace → s'.CompleteTo value ∧ value ≤ s'.size := by
  obtain ⟨s, hs, hf, ha, hl⟩ := exists_of_reaches plainConf 16
    (upSteps .lte ++ upSteps .wifi ++ [readStep .wifi 4, readStep .lte 4, .announce])
    (P := fun s => s.Fits ∧ s.All (fun e => e.GuessesRight ∧ e.AnnouncedInTime) ∧ s.lastDownloadedByte = 8)
    (by decide +kernel) (by decide) (by decide +kernel)
  exact ⟨s, hl, announced_complete hs hf ha⟩

/-- A session in which nothing was read is stopped, and its whole file is announced. -/
theorem announced_without_data : ∃ s : Session, s.Reached ∧ s.Fits ∧ s.All Event.GuessesRight ∧
    s.outfile = [] ∧ s.lastDownloadedByte = s.size ∧ s.size = 16 :=
  exists_of_reaches plainConf 16 [.stop, .announce] (by decide +kernel) (by decide)
    (by decide +kernel)

end GreenBag
