import GreenBag.Starting

/-! What is written, what is planned and what is unassigned make up the file. -/

namespace GreenBag

open Programs Ranges Schedules

lemma Whole.cover_all {s : Gb} (h : Whole .rest s) (hr : Rep .rest s) (b : ℤ) :
    cover (s.outfile ++ (s.plan .lte ++ s.plan .wifi ++ [s.unassigned])) b =
      if 0 ≤ b ∧ b < s.size then 1 else 0 := by
  have hl := hr.load_eq b
  rw [h.balanced b, show (s.schedule .rest).size = s.size from rfl] at hl
  rw [cover_append]
  simpa [Gb.ahead, Phase.held] using hl.symm

/-- No byte is lost and none is planned or fetched twice, whatever the order of the steps, as long as no
share overflows. -/
theorem no_byte_lost {s : Session} (h : s.Reached) (hf : s.Fits) (hw : s.All Event.WritesAll) :
    Tiles (s.outfile ++ (s.plan .lte ++ s.plan .wifi ++ [s.unassigned])) 0 s.size :=
  tiles_of_cover (((h.inv hf).whole hw).cover_all (h.inv hf).rep)

/-- Both connections are set up and read, the first to the end of its chunk. -/
theorem no_byte_lost_of_two : ∃ s : Session, s.bytesDone = 5 ∧
    Tiles (s.outfile ++ (s.plan .lte ++ s.plan .wifi ++ [s.unassigned])) 0 s.size := by
  obtain ⟨s, hs, hf, hw, hb⟩ := exists_of_reaches plainConf 16
    (upSteps .lte ++ upSteps .wifi ++ [readStep .wifi 1, readStep .lte 4])
    (P := fun s => s.Fits ∧ s.All Event.WritesAll ∧ s.bytesDone = 5) (by decide +kernel) (by decide)
    (by decide +kernel)
  exact ⟨s, hb, no_byte_lost hs hf hw⟩

end GreenBag
