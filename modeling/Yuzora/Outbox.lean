import Mathlib.Data.List.Infix
/-!
# Outbox — items that are sent in batches, one batch at a time

Items are accepted in order and wait in batches: an item that travels alone is a batch of its own, others may join the
last batch.  A batch is sent once the one before it settled.  When one fails, or an item is refused, or the outbox is
closed, what waits is lost and nothing comes after it.
-/
namespace Yuzora
namespace Outbox

open List

inductive Event (α : Type)
  | accept (item : α)
  | send (batch : List α)
  | settle
  | fail
  | refuse

structure State (α : Type) where
  waiting : List (List α)
  busy : Bool
  «open» : Bool

variable {α : Type}

def Event.item : Event α → Option α
  | .accept item => some item
  | _ => none

def Event.batch : Event α → Option (List α)
  | .send batch => some batch
  | _ => none

def accepted (h : List (Event α)) : List α := h.filterMap Event.item

def sent (h : List (Event α)) : List (List α) := h.filterMap Event.batch

@[simp] theorem accepted_snoc (h : List (Event α)) (e : Event α) :
    accepted (h ++ [e]) = accepted h ++ e.item.toList := by
  cases e <;> simp [accepted, Event.item]

@[simp] theorem sent_snoc (h : List (Event α)) (e : Event α) : sent (h ++ [e]) = sent h ++ e.batch.toList := by
  cases e <;> simp [sent, Event.batch]

section Run
-- The items that travel alone.
variable (solo : α → Bool)

def Batch (b : List α) : Prop := (∃ a, solo a = true ∧ b = [a]) ∨ (b ≠ [] ∧ ∀ a ∈ b, solo a = false)

/-- **What can happen to an outbox.** -/
inductive Run : List (Event α) → State α → Prop
  | start : Run [] ⟨[], false, true⟩
  | alone {h : List (Event α)} {w : List (List α)} {busy : Bool} (a : α) :
      Run h ⟨w, busy, true⟩ → Run (h ++ [Event.accept a]) ⟨w ++ [[a]], busy, true⟩
  | joined {h : List (Event α)} {w : List (List α)} {b : List α} {busy : Bool} {a : α} :
      Run h ⟨w ++ [b], busy, true⟩ → solo a = false → (∀ x ∈ b, solo x = false) →
      Run (h ++ [Event.accept a]) ⟨w ++ [b ++ [a]], busy, true⟩
  | send {h : List (Event α)} {w : List (List α)} {b : List α} :
      Run h ⟨b :: w, false, true⟩ → Run (h ++ [Event.send b]) ⟨w, true, true⟩
  | settle {h : List (Event α)} {w : List (List α)} {o : Bool} :
      Run h ⟨w, true, o⟩ → Run (h ++ [Event.settle]) ⟨w, false, o⟩
  | fail {h : List (Event α)} {w : List (List α)} {o : Bool} :
      Run h ⟨w, true, o⟩ → Run (h ++ [Event.fail]) ⟨[], false, false⟩
  | refuse {h : List (Event α)} {w : List (List α)} {busy o : Bool} :
      Run h ⟨w, busy, o⟩ → Run (h ++ [Event.refuse]) ⟨[], busy, false⟩
  | close {h : List (Event α)} {w : List (List α)} {busy o : Bool} :
      Run h ⟨w, busy, o⟩ → Run h ⟨[], busy, false⟩

end Run

def Answered (h : List (Event α)) : Prop :=
  ∀ pre b mid, h = pre ++ Event.send b :: mid → .settle ∈ mid ∨ .fail ∈ mid

def Paced (h : List (Event α)) : Prop :=
  ∀ pre b mid b' post, h = pre ++ Event.send b :: mid ++ Event.send b' :: post → .settle ∈ mid ∨ .fail ∈ mid

def Ended (h : List (Event α)) : Prop :=
  ∀ pre (e : Event α) post, h = pre ++ e :: post → e = .fail ∨ e = .refuse → ∀ b, .send b ∉ post

variable {solo : α → Bool} {h : List (Event α)} {s : State α}

theorem snoc_split {β : Type} {l pre post : List β} {x e : β} (h : l ++ [e] = pre ++ x :: post) :
    (post = [] ∧ pre = l ∧ x = e) ∨ ∃ post', post = post' ++ [e] ∧ l = pre ++ x :: post' := by
  rcases eq_nil_or_concat post with rfl | ⟨post', y, rfl⟩
  · obtain ⟨rfl, hx⟩ := append_inj' h rfl
    exact .inl ⟨rfl, rfl, (head_eq_of_cons_eq hx).symm⟩
  · rw [concat_eq_append, ← cons_append, ← append_assoc] at h
    obtain ⟨hl, hx⟩ := append_inj' h rfl
    obtain rfl := head_eq_of_cons_eq hx
    exact .inr ⟨post', concat_eq_append, hl⟩

section
variable (hr : Run solo h s)
include hr

/-! ## Nothing is lost, doubled or reordered -/

/-- **What was accepted was sent, or waits, or is lost**; nothing is lost while the outbox is open. -/
theorem Run.account :
    ∃ lost, accepted h = (sent h).flatten ++ s.waiting.flatten ++ lost ∧ (s.open = true → lost = []) := by
  induction hr with
  | start => exact ⟨[], rfl, fun _ => rfl⟩
  | alone _ _ ih | joined _ _ _ ih | send _ ih =>
    obtain ⟨lost, hl, hopen⟩ := ih
    obtain rfl := hopen rfl
    refine ⟨[], ?_, fun _ => rfl⟩
    simp [hl, Event.item, Event.batch]
  | settle _ ih =>
    obtain ⟨lost, hl, hopen⟩ := ih
    refine ⟨lost, ?_, hopen⟩
    simp [hl, Event.item, Event.batch]
  | @fail _ w _ _ ih =>
    obtain ⟨lost, hl, -⟩ := ih
    refine ⟨w.flatten ++ lost, ?_, nofun⟩
    simp [hl, Event.item, Event.batch]
  | @refuse _ w _ _ _ ih =>
    obtain ⟨lost, hl, -⟩ := ih
    refine ⟨w.flatten ++ lost, ?_, nofun⟩
    simp [hl, Event.item, Event.batch]
  | @close _ w _ _ _ ih =>
    obtain ⟨lost, hl, -⟩ := ih
    refine ⟨w.flatten ++ lost, ?_, nofun⟩
    simp [hl]

theorem Run.closed (hopen : s.open = false) : s.waiting = [] := by
  induction hr with
  | start => rfl
  | alone | joined | send => cases hopen
  | settle _ ih => exact ih hopen
  | fail | refuse | close => rfl

theorem Run.sent_prefix : (sent h).flatten <+: accepted h := by
  obtain ⟨lost, hl, -⟩ := hr.account
  rw [hl, append_assoc]
  exact prefix_append _ _

/-- **Items that travel alone do.** -/
theorem Run.batches : (∀ b ∈ sent h, Batch solo b) ∧ ∀ b ∈ s.waiting, Batch solo b := by
  induction hr with
  | start => exact ⟨fun b hb => (by cases hb), fun b hb => (by cases hb)⟩
  | alone a _ ih =>
    refine ⟨by simpa [Event.batch] using ih.1, fun b hb => ?_⟩
    rcases mem_append.1 hb with hb | hb
    · exact ih.2 b hb
    · obtain rfl := mem_singleton.1 hb
      cases ha : solo a with
      | true => exact .inl ⟨a, ha, rfl⟩
      | false => exact .inr ⟨cons_ne_nil _ _, fun x hx => mem_singleton.1 hx ▸ ha⟩
  | joined _ ha hall ih =>
    refine ⟨by simpa [Event.batch] using ih.1, fun b hb => ?_⟩
    rcases mem_append.1 hb with hb | hb
    · exact ih.2 b (mem_append_left _ hb)
    · obtain rfl := mem_singleton.1 hb
      refine .inr ⟨by simp, fun x hx => ?_⟩
      rcases mem_append.1 hx with hx | hx
      · exact hall x hx
      · exact mem_singleton.1 hx ▸ ha
  | send _ ih =>
    refine ⟨fun b hb => ?_, fun b hb => ih.2 b (mem_cons_of_mem _ hb)⟩
    rw [sent_snoc, mem_append] at hb
    rcases hb with hb | hb
    · exact ih.1 b hb
    · obtain rfl : b = _ := mem_singleton.1 hb
      exact ih.2 _ (mem_cons_self ..)
  | settle _ ih => exact ⟨by simpa [Event.batch] using ih.1, ih.2⟩
  | fail _ ih | refuse _ ih => exact ⟨by simpa [Event.batch] using ih.1, by simp⟩
  | close _ ih => exact ⟨ih.1, by simp⟩

/-! ## One at a time -/

theorem Run.settled : (s.busy = false → Answered h) ∧ Paced h := by
  have hstep : ∀ {h : List (Event α)} {e : Event α}, Paced h → (∀ b', e ≠ .send b') → Paced (h ++ [e]) := by
    intro h e ih he pre b mid b' post heq
    rcases snoc_split heq with ⟨-, -, hx⟩ | ⟨post', rfl, hl⟩
    · exact absurd hx.symm (he b')
    · exact ih pre b mid b' post' hl
  have hquiet : ∀ {h : List (Event α)} {e : Event α},
      Answered h → (∀ b', e ≠ .send b') → Answered (h ++ [e]) := by
    intro h e ih he pre b mid heq
    rcases snoc_split heq with ⟨-, -, hx⟩ | ⟨post', rfl, hl⟩
    · exact absurd hx.symm (he b)
    · exact (ih pre b post' hl).imp (mem_append_left _) (mem_append_left _)
  have hlast : ∀ {h : List (Event α)} {e : Event α}, (e = .settle ∨ e = .fail) → Answered (h ++ [e]) := by
    intro h e he pre b mid heq
    rcases snoc_split heq with ⟨-, -, hx⟩ | ⟨post', rfl, -⟩
    · rcases he with rfl | rfl <;> cases hx
    · rcases he with rfl | rfl
      · exact .inl (by simp)
      · exact .inr (by simp)
  induction hr with
  | start => exact ⟨fun _ pre b mid heq => (by simp at heq), fun pre b mid b' post heq => (by simp at heq)⟩
  | alone a _ ih =>
    have he : ∀ b', Event.accept a ≠ .send b' := nofun
    exact ⟨fun hbusy => hquiet (ih.1 hbusy) he, hstep ih.2 he⟩
  | @joined _ _ _ _ a _ _ _ ih =>
    have he : ∀ b', Event.accept a ≠ .send b' := nofun
    exact ⟨fun hbusy => hquiet (ih.1 hbusy) he, hstep ih.2 he⟩
  | send _ ih =>
    refine ⟨fun hbusy => (by cases hbusy), fun pre b mid b' post heq => ?_⟩
    rcases snoc_split heq with ⟨-, hpre, -⟩ | ⟨post', rfl, hl⟩
    · exact ih.1 rfl pre b mid hpre.symm
    · exact ih.2 pre b mid b' post' hl
  | settle _ ih => exact ⟨fun _ => hlast (.inl rfl), hstep ih.2 nofun⟩
  | fail _ ih => exact ⟨fun _ => hlast (.inr rfl), hstep ih.2 nofun⟩
  | refuse _ ih =>
    have he : ∀ b', (Event.refuse : Event α) ≠ .send b' := nofun
    exact ⟨fun hbusy => hquiet (ih.1 hbusy) he, hstep ih.2 he⟩
  | close _ ih => exact ih

/-- **A batch is sent after the one before it settled.** -/
theorem Run.paced {pre mid post : List (Event α)} {b b' : List α}
    (hl : h = pre ++ Event.send b :: mid ++ Event.send b' :: post) : .settle ∈ mid ∨ .fail ∈ mid :=
  hr.settled.2 pre b mid b' post hl

/-! ## Nothing after the end -/

theorem Run.finished : ((.fail ∈ h ∨ .refuse ∈ h) → s.open = false) ∧ Ended h := by
  have hstep : ∀ {h : List (Event α)} {e : Event α}, Ended h → (∀ b, e ≠ .send b) → Ended (h ++ [e]) := by
    intro h e ih he pre x post heq hx b hb
    rcases snoc_split heq with ⟨rfl, -, -⟩ | ⟨post', rfl, hl⟩
    · cases hb
    · rcases mem_append.1 hb with hb | hb
      · exact ih pre x post' hl hx b hb
      · exact he b (mem_singleton.1 hb).symm
  induction hr with
  | start => exact ⟨by simp, fun pre e post heq => (by simp at heq)⟩
  | alone _ _ ih | joined _ _ _ ih | settle _ ih => exact ⟨by simpa using ih.1, hstep ih.2 nofun⟩
  | send _ ih =>
    refine ⟨by simpa using ih.1, fun pre x post heq hx b hb => ?_⟩
    rcases snoc_split heq with ⟨rfl, -, -⟩ | ⟨post', rfl, hl⟩
    · cases hb
    · have hin := ih.1 (by rcases hx with rfl | rfl <;> simp [hl])
      cases hin
  | fail _ ih | refuse _ ih => exact ⟨fun _ => rfl, hstep ih.2 nofun⟩
  | close _ ih => exact ⟨fun _ => rfl, ih.2⟩

/-- **Nothing is sent after a failure or a refusal.** -/
theorem Run.quiet {pre post : List (Event α)} {e : Event α} (hl : h = pre ++ e :: post)
    (he : e = .fail ∨ e = .refuse) (b : List α) : .send b ∉ post :=
  hr.finished.2 pre e post hl he b

end

end Outbox
end Yuzora
