import Mathlib.Data.List.Infix

/-!
# `Harjus.Lib.Framing`: frames in a stream that comes in chunks

A cutter takes a frame off the front of a buffer, or asks for more. It cuts the frames of a language
(`Cuts`) when it finds each frame with whatever follows it, and asks for more on every shorter part
of a frame.

* `Framed`: bytes that are frames one after another, and a part of a frame.
* `Framed.of_prefix`: what has arrived of framed bytes is framed, with the first of the frames.
* `Framed.remaining`: then the other frames are to come.
* `Cuts.framed_part`: a part of a frame has no frame in it.

The module names no program.
-/

set_option autoImplicit false

namespace Harjus.Lib

variable {α : Type*} (cut : List α → Option (List α × List α)) (IsFrame : List α → Prop)

/-- The cutter finds the frames and no parts of them. -/
structure Cuts : Prop where
  ne_nil : ∀ frame, IsFrame frame → frame ≠ []
  whole : ∀ frame rest, IsFrame frame → cut (frame ++ rest) = some (frame, rest)
  part : ∀ frame before, IsFrame frame → before <+: frame → before ≠ frame → cut before = none

/-- A part of a frame that is none yet. -/
def Part (before : List α) : Prop := ∃ frame, IsFrame frame ∧ before <+: frame ∧ before ≠ frame

/-- Bytes that are frames one after another, and a part of a frame. -/
structure Framed (frames : List (List α)) (part bytes : List α) : Prop where
  isFrame : ∀ frame ∈ frames, IsFrame frame
  isPart : Part IsFrame part
  eq : bytes = frames.flatten ++ part

variable {cut IsFrame}

/-- Nothing is a part of a frame, if there is a frame at all. -/
theorem Cuts.part_nil (h : Cuts cut IsFrame) {frame : List α} (hframe : IsFrame frame) :
    Part IsFrame [] :=
  ⟨frame, hframe, List.nil_prefix, (h.ne_nil frame hframe).symm⟩

/-- The cutter asks for more on a part of a frame. -/
theorem Cuts.cut_part (h : Cuts cut IsFrame) {before : List α} (hpart : Part IsFrame before) :
    cut before = none := by
  obtain ⟨frame, hframe, hbefore, hne⟩ := hpart
  exact h.part frame before hframe hbefore hne

/-- A part of a part is a part. -/
theorem Part.of_prefix {before part : List α} (h : Part IsFrame part) (hbefore : before <+: part) :
    Part IsFrame before := by
  obtain ⟨frame, hframe, hpart, hne⟩ := h
  refine ⟨frame, hframe, hbefore.trans hpart, fun heq => hne ?_⟩
  exact hpart.eq_of_length_le (heq ▸ hbefore.length_le)

namespace Framed

/-- A part without frames in front of it. -/
theorem nil {part : List α} (h : Part IsFrame part) : Framed IsFrame [] part part :=
  ⟨fun _ hmem => absurd hmem List.not_mem_nil, h, rfl⟩

/-- One more frame in front. -/
theorem cons {frame : List α} {frames : List (List α)} {part bytes : List α}
    (hframe : IsFrame frame) (h : Framed IsFrame frames part bytes) :
    Framed IsFrame (frame :: frames) part (frame ++ bytes) where
  isFrame := by
    intro other hother
    rcases List.mem_cons.mp hother with rfl | hother
    · exact hframe
    · exact h.isFrame other hother
  isPart := h.isPart
  eq := by rw [h.eq, List.flatten_cons, List.append_assoc]

/-- Behind the first frame are the others and the part. -/
theorem of_cons {frame : List α} {frames : List (List α)} {part bytes : List α}
    (h : Framed IsFrame (frame :: frames) part bytes) :
    IsFrame frame ∧ Framed IsFrame frames part (frames.flatten ++ part) :=
  ⟨h.isFrame frame List.mem_cons_self,
    fun other hother => h.isFrame other (List.mem_cons_of_mem _ hother), h.isPart, rfl⟩

/-- What has arrived of framed bytes is framed, with the first of the frames. -/
theorem of_prefix {frames : List (List α)} {part bytes arrived : List α}
    (h : Framed IsFrame frames part bytes) (hempty : Part IsFrame [])
    (hbefore : arrived <+: bytes) :
    ∃ frames' part', frames' <+: frames ∧ Framed IsFrame frames' part' arrived := by
  induction frames generalizing bytes arrived with
  | nil =>
    rw [h.eq] at hbefore
    exact ⟨[], arrived, List.nil_prefix, .nil (h.isPart.of_prefix hbefore)⟩
  | cons frame frames ih =>
    obtain ⟨hframe, hrest⟩ := h.of_cons
    rw [h.eq, List.flatten_cons, List.append_assoc] at hbefore
    rcases List.prefix_or_prefix_of_prefix hbefore (List.prefix_append frame _) with
      hshort | hlong
    · by_cases hwhole : arrived = frame
      · have hone := Framed.cons hframe (.nil hempty)
        rw [List.append_nil] at hone
        exact ⟨[frame], [], List.prefix_append [frame] frames, hwhole ▸ hone⟩
      · exact ⟨[], arrived, List.nil_prefix, .nil ⟨frame, hframe, hshort, hwhole⟩⟩
    · obtain ⟨rest, rfl⟩ := hlong
      obtain ⟨frames', part', hframes', hframed⟩ :=
        ih hrest ((List.prefix_append_right_inj frame).mp hbefore)
      exact ⟨frame :: frames', part', (List.prefix_cons_inj frame).mpr hframes',
        .cons hframe hframed⟩

/-- When the first frames and a part have arrived, the other frames are to come. -/
theorem remaining {frames frames' : List (List α)} {part part' bytes arrived rest : List α}
    (h : Framed IsFrame (frames ++ frames') part bytes)
    (harrived : Framed IsFrame frames part' arrived) (hbytes : bytes = arrived ++ rest) :
    Framed IsFrame frames' part (part' ++ rest) where
  isFrame frame hframe := h.isFrame frame (List.mem_append_right _ hframe)
  isPart := h.isPart
  eq := by
    have heq := h.eq
    rw [hbytes, harrived.eq, List.flatten_append, List.append_assoc, List.append_assoc] at heq
    exact List.append_cancel_left heq

end Framed

/-- In a part of a frame there is no frame. -/
theorem Cuts.framed_part (h : Cuts cut IsFrame) {frames : List (List α)} {part bytes : List α}
    (hpart : Part IsFrame bytes) (hframed : Framed IsFrame frames part bytes) :
    frames = [] ∧ part = bytes := by
  cases frames with
  | nil => exact ⟨rfl, hframed.eq.symm⟩
  | cons frame frames =>
    have hwhole := h.whole frame (frames.flatten ++ part) hframed.of_cons.1
    have hnone := h.cut_part hpart
    rw [hframed.eq, List.flatten_cons, List.append_assoc, hwhole] at hnone
    cases hnone

end Harjus.Lib
