import GreenBag.State

/-! Chunk lists: appending, and the selection sort of `sorting_chunks`. -/

namespace GreenBag

open Ranges

def newChunk (startByte size : ℤ) : Chunk := ⟨startByte, startByte + size - 1, size⟩

def addNewChunk (chunkList : List Chunk) (startByte size : ℤ) : List Chunk :=
  chunkList ++ [newChunk startByte size]

/-- The scan of `sorting_chunks`: the earliest chunk with the smallest start. -/
def smallest (target : Chunk) : List Chunk → Chunk
  | [] => target
  | next :: rest => smallest (if target.startByte > next.startByte then next else target) rest

def selectChunks : ℕ → List Chunk → List Chunk
  | 0, _ => []
  | _, [] => []
  | n + 1, c :: cs => smallest c cs :: selectChunks n ((c :: cs).erase (smallest c cs))

def sortingChunks (chunkList : List Chunk) : List Chunk :=
  selectChunks chunkList.length chunkList

lemma smallest_mem (c : Chunk) (cs : List Chunk) : smallest c cs ∈ c :: cs := by
  induction cs generalizing c with
  | nil => simp [smallest]
  | cons d cs ih =>
    have h := ih (if c.startByte > d.startByte then d else c)
    rw [smallest]
    split_ifs at h ⊢ <;> simp only [List.mem_cons] at h ⊢ <;> tauto

lemma smallest_le (c : Chunk) (cs : List Chunk) :
    ∀ d ∈ c :: cs, (smallest c cs).startByte ≤ d.startByte := by
  induction cs generalizing c with
  | nil => simp [smallest]
  | cons e cs ih =>
    intro d hd
    have h := ih (if c.startByte > e.startByte then e else c)
    have hh := h _ List.mem_cons_self
    rw [smallest]
    rcases List.mem_cons.mp hd with rfl | hd
    · split_ifs at hh ⊢ <;> omega
    · rcases List.mem_cons.mp hd with rfl | hd
      · split_ifs at hh ⊢ <;> omega
      · exact h d (List.mem_cons_of_mem _ hd)

lemma selectChunks_perm (n : ℕ) (cs : List Chunk) (hn : cs.length = n) :
    (selectChunks n cs).Perm cs := by
  induction n generalizing cs with
  | zero => simp [selectChunks, List.length_eq_zero_iff.mp hn]
  | succ n ih =>
    cases cs with
    | nil => simp at hn
    | cons c cs =>
      have hm := smallest_mem c cs
      have hl : ((c :: cs).erase (smallest c cs)).length = n := by
        rw [List.length_erase_of_mem hm]
        omega
      exact ((ih _ hl).cons _).trans (List.perm_cons_erase hm).symm

lemma sortingChunks_perm (cs : List Chunk) : (sortingChunks cs).Perm cs :=
  selectChunks_perm _ cs rfl

def ByStart (cs : List Chunk) : Prop := cs.Pairwise (fun c d => c.startByte ≤ d.startByte)

lemma selectChunks_byStart (n : ℕ) (cs : List Chunk) (hn : cs.length = n) :
    ByStart (selectChunks n cs) := by
  induction n generalizing cs with
  | zero => exact List.Pairwise.nil
  | succ n ih =>
    cases cs with
    | nil => exact List.Pairwise.nil
    | cons c cs =>
      have hl : ((c :: cs).erase (smallest c cs)).length = n := by
        rw [List.length_erase_of_mem (smallest_mem c cs)]
        omega
      refine List.pairwise_cons.mpr ⟨fun d hd => ?_, ih _ hl⟩
      have hd' := (selectChunks_perm _ _ hl).mem_iff.mp hd
      exact smallest_le c cs d (List.mem_of_mem_erase hd')

lemma sortingChunks_byStart (cs : List Chunk) : ByStart (sortingChunks cs) :=
  selectChunks_byStart _ cs rfl

/-- The size of a chunk is that of its range, and it has at least one byte. -/
def Chunk.Valid (c : Chunk) : Prop := c.size = c.lastByte - c.startByte + 1 ∧ 1 ≤ c.size

lemma newChunk_valid {a n : ℤ} (hn : 1 ≤ n) : (newChunk a n).Valid := by
  simp only [Chunk.Valid, newChunk]
  omega

lemma newChunk_self {c : Chunk} (h : c.Valid) : newChunk c.startByte c.size = c := by
  cases c
  simp only [Chunk.Valid] at h
  simp only [newChunk, Chunk.mk.injEq, true_and, and_true]
  omega

/-- The chunks are disjoint and in order. -/
def Ascending (cs : List Chunk) : Prop := cs.Pairwise (fun c d => c.lastByte < d.startByte)

instance (cs : List Chunk) : Decidable (Ascending cs) := inferInstanceAs (Decidable (cs.Pairwise _))

def sizeSum (cs : List Chunk) : ℤ := (cs.map Chunk.size).sum

@[simp] lemma sizeSum_nil : sizeSum [] = 0 := rfl

@[simp] lemma sizeSum_cons (c : Chunk) (cs : List Chunk) : sizeSum (c :: cs) = c.size + sizeSum cs := by
  simp [sizeSum]

@[simp] lemma sizeSum_append (cs ds : List Chunk) : sizeSum (cs ++ ds) = sizeSum cs + sizeSum ds := by
  simp [sizeSum]

lemma sizeSum_nonneg {cs : List Chunk} (h : ∀ c ∈ cs, c.Valid) : 0 ≤ sizeSum cs := by
  induction cs with
  | nil => simp
  | cons c cs ih =>
    have hc := (h c List.mem_cons_self).2
    have hs := ih (fun d hd => h d (List.mem_cons_of_mem _ hd))
    rw [sizeSum_cons]
    omega

lemma sizeSum_pos {cs : List Chunk} (h : ∀ c ∈ cs, c.Valid) (hn : cs ≠ []) : 1 ≤ sizeSum cs := by
  obtain ⟨c, cs, rfl⟩ := List.exists_cons_of_ne_nil hn
  have hc := (h c List.mem_cons_self).2
  have hs := sizeSum_nonneg (fun d hd => h d (List.mem_cons_of_mem c hd))
  rw [sizeSum_cons]
  omega

lemma Chunk.range_newChunk (a n : ℤ) : (newChunk a n).range = ⟨a, a + n - 1⟩ := rfl

end GreenBag
