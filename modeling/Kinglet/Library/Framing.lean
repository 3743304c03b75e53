import Mathlib.Data.List.Basic

/-!
# Cutting a stream into frames

A receiver cuts one frame after the other off its input, in a way that depends on its state, and
handles it. Whether there is a frame at the head of the input, and which, is not changed by more
input behind it. Then what has been handled so far and what is still buffered stand for all the input
received, however it came in pieces.
-/

namespace Kinglet.Library

/-- A receiver of `β`s, what it shows of its state, and how it cuts and handles its frames. -/
structure Framing (σ β γ : Type*) where
  cut : σ → List β → Option (List β × List β)
  handle : σ → List β → σ
  output : σ → γ
  cut_append {s : σ} {input frame rest : List β} (h : cut s input = some (frame, rest))
    (more : List β) : cut s (input ++ more) = some (frame, rest ++ more)
  cut_length {s : σ} {input frame rest : List β} (h : cut s input = some (frame, rest)) :
    rest.length < input.length

namespace Framing

variable {σ β γ : Type*} (framing : Framing σ β γ)

/-- The frames of an input that is there at once, and what the receiver shows in the end. -/
def serve (s : σ) (input : List β) : List (List β) × γ :=
  match _h : framing.cut s input with
  | none => ([], framing.output s)
  | some (frame, rest) =>
      let served := serve (framing.handle s frame) rest
      (frame :: served.1, served.2)
termination_by input.length
decreasing_by exact framing.cut_length _h

variable {framing} {s s' s₀ : σ} {input head rest received buffer : List β}
  {frames : List (List β)}

theorem serve_of_none (h : framing.cut s input = none) :
    framing.serve s input = ([], framing.output s) := by
  rw [serve]
  split
  · rfl
  · rename_i hcut
    exact nomatch h.symm.trans hcut

theorem serve_of_some (h : framing.cut s input = some (head, rest)) :
    framing.serve s input = (head :: (framing.serve (framing.handle s head) rest).1,
      (framing.serve (framing.handle s head) rest).2) := by
  rw [serve]
  split
  · rename_i hcut
    exact nomatch h.symm.trans hcut
  · rename_i hcut
    obtain ⟨rfl, rfl⟩ := Prod.mk.inj (Option.some.inj (h.symm.trans hcut))
    rfl

/-- No input will be cut any more. -/
def Stuck (framing : Framing σ β γ) (s : σ) (input : List β) : Prop :=
  ∀ more, framing.cut s (input ++ more) = none

/-- Whatever comes, the frames handled and those that follow are the frames of the whole input. -/
def Follows (framing : Framing σ β γ) (start : σ) (received : List β) (s : σ) (buffer : List β)
    (frames : List (List β)) : Prop :=
  ∀ more, framing.serve start (received ++ more) =
    (frames ++ (framing.serve s (buffer ++ more)).1, (framing.serve s (buffer ++ more)).2)

namespace Follows

theorem start (framing : Framing σ β γ) (s : σ) : framing.Follows s [] s [] [] :=
  fun _ => rfl

theorem receive (h : framing.Follows s₀ received s buffer frames) (chunk : List β) :
    framing.Follows s₀ (received ++ chunk) s (buffer ++ chunk) frames := by
  intro more
  rw [List.append_assoc, List.append_assoc]
  exact h (chunk ++ more)

theorem frame (h : framing.Follows s₀ received s buffer frames)
    (hcut : framing.cut s buffer = some (head, rest)) :
    framing.Follows s₀ received (framing.handle s head) rest (frames ++ [head]) := by
  intro more
  rw [h more, serve_of_some (framing.cut_append hcut more), List.append_assoc]
  rfl

/-- A receiver that stops for good may be in any state that is stuck and shows the same. -/
theorem stuck (h : framing.Follows s₀ received s buffer frames)
    (hstuck : framing.Stuck s buffer) (hstuck' : framing.Stuck s' buffer)
    (houtput : framing.output s' = framing.output s) :
    framing.Follows s₀ received s' buffer frames := by
  intro more
  rw [h more, serve_of_none (hstuck more), serve_of_none (hstuck' more), houtput]

/-- Once there is no frame to cut, all frames of the input are handled. -/
theorem served (h : framing.Follows s₀ received s buffer frames)
    (hcut : framing.cut s buffer = none) :
    framing.serve s₀ received = (frames, framing.output s) := by
  have hall := h []
  rwa [List.append_nil, List.append_nil, serve_of_none hcut, List.append_nil] at hall

end Follows

end Framing

end Kinglet.Library
