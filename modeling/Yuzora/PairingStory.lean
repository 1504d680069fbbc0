import Yuzora.PairingEffects
/-!
# PairingStory — what a finished registration has behind it

A live entry's state tells what happened to its pairing, in order and at which times (`Chain`); an entry that is over
stays over.  A registration that finishes was live until then.
-/
namespace Yuzora
namespace Pairing

open List Table Option

/-- The pairing identifier a successful `pairing.create` drew. -/
def Label.drawn (label : Label) : Option (Bytes 16) :=
  match label.op, label.outcome with
  | .commandEnd (.create _ _) draw _, .command (.ok _) => draw.id
  | _, _ => none

def Fresh (l : List (Transition Desk Label)) : Prop := (l.filterMap (fun x => x.label.drawn)).Nodup

def Named (id : String) (l : List (Transition Desk Label)) : Prop := ∃ x ∈ l, ∃ secret, Created id secret x

variable {secret : Bytes 32}

theorem Created.drawn {id : String} {x : Transition Desk Label} (h : Created id secret x) :
    ∃ key, x.label.drawn = some key ∧ encode key.1 = id := by
  obtain ⟨path, addToDevice, key, visit, hop, hid, hout⟩ := h
  exact ⟨key, by rw [Label.drawn, hop, hout], hid⟩

theorem encode_injective {m n : List UInt8} (h : encode m = encode n) : m = n := by
  have hd := congrArg decodeBase64 h
  rw [decodeBase64_encode, decodeBase64_encode] at hd
  exact Option.some.inj hd

/-- **A fresh identifier names no pairing yet.** -/
theorem Fresh.not_named {l : List (Transition Desk Label)} {y : Transition Desk Label} {id : String}
    (h : Fresh (l ++ [y])) (hy : Created id secret y) : ¬ Named id l := by
  rintro ⟨x, hx, secret', hc⟩
  obtain ⟨key, hk, hid⟩ := hy.drawn
  obtain ⟨key', hk', hid'⟩ := hc.drawn
  have heq : key' = key := Subtype.ext (encode_injective (hid'.trans hid.symm))
  subst heq
  rw [Fresh, filterMap_append, nodup_append] at h
  exact h.2.2 key' (mem_filterMap.2 ⟨x, hx, hk'⟩) key' (by simp [hk]) rfl

theorem Fresh.before {l m : List (Transition Desk Label)} (h : Fresh (l ++ m)) : Fresh l := by
  rw [Fresh, filterMap_append] at h
  exact h.of_append_left

section Story
variable {ext : External} {x : Transition Desk Label} {id : String} {l : List (Transition Desk Label)}
  {o : Option Entry} {dst : Entry} {s : Desk} {now : Timestamp} {entry : Entry} {label : Label}{t : Desk}

theorem Effect.of_some (h : Effect ext x id o (some dst)) : (∃ src, o = some src) ∨ ∃ secret, Created id secret x := by
  cases h with
  | created addToDevice «until» hc => exact .inr ⟨_, hc⟩
  | _ => exact .inl ⟨_, rfl⟩

/-- **An entry that is over does not come back**, and the failures of one that lives on are not forgotten. -/
theorem Effect.wakes (h : Effect ext x id o (some dst)) (hl : dst.live = true) :
    (∃ src, o = some src ∧ src.live = true ∧ src.failures ≤ dst.failures ∧
      (dst.failures < 5 ∨ dst.failures = src.failures)) ∨
    (∃ secret, Created id secret x) ∧ dst.failures = 0 := by
  cases h with
  | ended hd =>
    rw [hd] at hl
    cases hl
  | created addToDevice «until» hc => exact .inr ⟨⟨_, hc⟩, rfl⟩
  | kept failures polls hle h5 => exact .inl ⟨_, rfl, hl, hle, h5⟩
  | claimed _ _ hp | approved _ hp => exact .inl ⟨_, rfl, by rw [Entry.live, hp], Nat.le_refl _, .inr rfl⟩
  | issued _ _ _ hp | consumed _ hp => exact .inl ⟨_, rfl, Entry.live_of_approved hp, Nat.le_refl _, .inr rfl⟩
  | retried hp => exact .inl ⟨_, rfl, Entry.live_of_registering hp, Nat.le_refl _, .inr rfl⟩

/-- **Every effect keeps entries sound.** -/
theorem Effect.sound (hs : ∀ src, o = some src → src.Sound) (h : Effect ext x id o (some dst)) : dst.Sound := by
  cases h with
  | ended hd => exact ⟨fun hl => by simp [hd] at hl, fun hl => by simp [hd] at hl⟩
  | created addToDevice «until» hc => exact ⟨fun _ => rfl, fun _ _ => rfl⟩
  | kept failures polls _ _ => exact ⟨(hs _ rfl).quiet, (hs _ rfl).unclaimed⟩
  | claimed token label hp _ _ => exact ⟨(hs _ rfl).quiet, nofun⟩
  | approved a hp hc _ =>
    exact ⟨fun _ => (hs _ rfl).quiet (by rw [Entry.live, hp]), fun _ hn => absurd hn hc⟩
  | issued ticket c polls hp hc _ =>
    refine ⟨(hs _ rfl).quiet, fun _ hn => ?_⟩
    rw [hc] at hn
    cases hn
  | @consumed src _ _ c hp _ _ _ _ =>
    have hl := Entry.live_of_approved hp
    refine ⟨fun _ => (hs _ rfl).quiet hl, fun _ hn => ?_⟩
    have := (hs _ rfl).unclaimed hl hn
    rw [hp] at this
    cases this
  | retried hp =>
    have hl := Entry.live_of_registering hp
    refine ⟨fun _ => (hs _ rfl).quiet hl, fun _ hn => ?_⟩
    have := (hs _ rfl).unclaimed hl hn
    rw [hp] at this
    cases this

theorem run_sound (h : Run ext l s) : ∀ id entry, s.store.entries.get id = some entry → entry.Sound := by
  refine Trace.invariant (P := fun s : Desk => ∀ id entry, s.store.entries.get id = some entry → entry.Sound) ?_ ?_ h
  · rintro s ⟨publicHost, login, hs, -⟩ id entry hg
    rw [hs] at hg
    cases hg
  · intro s label t hs hstep id entry hg
    have he := step_effect hs hstep id
    rw [hg] at he
    exact he.sound (fun src => hs id src)

theorem run_named (h : Run ext l s) : ∀ id entry, s.store.entries.get id = some entry → Named id l := by
  refine Trace.history
    (P := fun l (s : Desk) => ∀ id entry, s.store.entries.get id = some entry → Named id l) ?_ ?_ h
  · rintro s ⟨publicHost, login, hs, -⟩ id entry hg
    rw [hs] at hg
    cases hg
  · intro l s label t hr ih hstep id entry hg
    have he := step_effect (run_sound hr) hstep id
    rw [hg] at he
    rcases he.of_some with ⟨src, hsrc⟩ | ⟨secret, hc⟩
    · obtain ⟨x, hx, secret, hc⟩ := ih id src hsrc
      exact ⟨x, mem_append_left _ hx, secret, hc⟩
    · exact ⟨_, by simp, secret, hc⟩

theorem run_touched (h : Run ext l s) :
    ∀ x ∈ l, ∀ id entry, x.src.store.entries.get id = some entry ∨ x.dst.store.entries.get id = some entry →
      Named id l := by
  intro x hx id entry hg
  obtain ⟨past, later, rfl, hpast, hstep⟩ := h.transition x hx
  have hnext : Run ext (past ++ [x]) x.dst := .snoc hpast hstep
  have hsub : (past ++ [x]).Subset (past ++ x :: later) := by
    intro y hy
    simp only [mem_append, mem_cons, not_mem_nil, or_false] at hy ⊢
    tauto
  obtain ⟨y, hy, secret, hc⟩ : Named id (past ++ [x]) := by
    rcases hg with hg | hg
    · obtain ⟨y, hy, hc⟩ := run_named hpast id entry hg
      exact ⟨y, mem_append_left _ hy, hc⟩
    · exact run_named hnext id entry hg
  exact ⟨y, hsub hy, secret, hc⟩

/-- **A pairing that was over once never lives again**, identifiers being fresh. -/
theorem run_over (h : Run ext l s) :
    Fresh l → ∀ x ∈ l, ∀ id dst, x.dst.store.entries.get id = some dst → dst.live = false →
      ∀ entry, s.store.entries.get id = some entry → entry.live = false := by
  refine Trace.history (P := fun l (s : Desk) => Fresh l → ∀ x ∈ l, ∀ id dst,
    x.dst.store.entries.get id = some dst → dst.live = false →
      ∀ entry, s.store.entries.get id = some entry → entry.live = false) ?_ ?_ h
  · intro s _ _ x hx
    cases hx
  · intro l s label t hr ih hstep hf x hx id dst hg hd entry he
    rcases mem_append.1 hx with hx | hx
    · have heff := step_effect (run_sound hr) hstep id
      rw [he] at heff
      cases hl : entry.live with
      | false => rfl
      | true =>
        rcases heff.wakes hl with ⟨src, hsrc, hlive, -⟩ | ⟨⟨secret, hc⟩, -⟩
        · rw [ih hf.before x hx id dst hg hd src hsrc] at hlive
          cases hlive
        · exact absurd (run_touched hr x hx id dst (.inr hg)) (hf.not_named hc)
    · obtain rfl := mem_singleton.1 hx
      rw [Option.some.inj (he.symm.trans hg), hd]

/-! ## The story of a live entry -/

/-- **What a live entry's state tells**: the steps behind it, in order, and the times that bound what comes next. -/
inductive Chain (ext : External) (id : String) (l : List (Transition Desk Label)) (entry : Entry) : Prop
  | created (secret : Bytes 32) : entry.state = .pending → entry.claimHash = none → entry.ticket = none →
      entry.secretHash = hash ext secret.1 → Happened [Created id secret] l → Chain ext id l entry
  | claimed (secret token : Bytes 32) : entry.state = .pending → entry.claimHash = some (hash ext token.1) →
      entry.ticket = none → Happened [Created id secret, Claimed ext id (hash ext secret.1) token] l → Chain ext id l entry
  | approved (secret token : Bytes 32) (a : Timestamp) : entry.state = .approved →
      entry.claimHash = some (hash ext token.1) → entry.until = a.after Pairing.REGISTRATION_WINDOW →
      Happened [Created id secret, Claimed ext id (hash ext secret.1) token, Approved id a] l →
      (∀ current, entry.ticket = some current → ∃ (ticket : Bytes 32) (c : Timestamp),
        current = ⟨hash ext ticket.1, min (c.after TICKET_TTL) entry.until⟩ ∧
        Happened [Created id secret, Claimed ext id (hash ext secret.1) token, Approved id a,
          Issued ext id (hash ext token.1) ticket c] l) → Chain ext id l entry
  | registering (secret token ticket : Bytes 32) (a c c₁ : Timestamp) (registration : Registration) :
      entry.state = .registering → entry.claimHash = some (hash ext token.1) →
      entry.until = a.after Pairing.REGISTRATION_WINDOW → entry.ticket = none →
      entry.registration = some registration →
      registration.deadline = min (registration.startedAt.after TICKET_TTL) entry.until →
      c₁ < c.after TICKET_TTL → c₁ < a.after Pairing.REGISTRATION_WINDOW →
      Happened [Created id secret, Claimed ext id (hash ext secret.1) token, Approved id a,
        Issued ext id (hash ext token.1) ticket c, Consumed ext id (hash ext ticket.1) c₁ registration] l →
      Chain ext id l entry

theorem Chain.kept (h : Chain ext id l entry) (failures polls : Nat)
    (y : Transition Desk Label) : Chain ext id (l ++ [y]) { entry with failures, polls } := by
  cases h with
  | created secret hp hc ht hs hh => exact .created secret hp hc ht hs (hh.step y)
  | claimed secret token hp hc ht hh => exact .claimed secret token hp hc ht (hh.step y)
  | approved secret token a hp hc hu hh ht =>
    refine .approved secret token a hp hc hu (hh.step y) (fun current hcur => ?_)
    obtain ⟨ticket, c, rfl, hi⟩ := ht current hcur
    exact ⟨ticket, c, rfl, hi.step y⟩
  | registering secret token ticket a c c₁ registration hp hc hu ht hr hd h1 h2 hh =>
    exact .registering secret token ticket a c c₁ registration hp hc hu ht hr hd h1 h2 (hh.step y)

/-- **Each effect that leaves a live entry adds its step to the story.** -/
theorem Chain.snoc (hs : ∀ src, o = some src → src.live = true → Chain ext id l src) (h : Effect ext x id o (some dst))
    (hl : dst.live = true) : Chain ext id (l ++ [x]) dst := by
  cases h with
  | ended hd => simp [hd] at hl
  | @created _ secret addToDevice «until» hc => exact .created secret rfl rfl rfl rfl (Happened.nil.snoc hc)
  | kept failures polls _ _ => exact (hs _ rfl hl).kept failures polls x
  | claimed token label hp hn hc =>
    cases hs _ rfl (by rw [Entry.live, hp]) with
    | created secret _ _ ht hsec hh => exact .claimed secret token hp rfl ht (hh.snoc (hsec ▸ hc))
    | claimed _ _ _ hc' => simp [hn] at hc'
    | approved _ _ _ hp' | registering _ _ _ _ _ _ _ hp' => simp [hp] at hp'
  | approved a hp hn ha =>
    cases hs _ rfl (by rw [Entry.live, hp]) with
    | created _ _ hc' => exact absurd hc' hn
    | claimed secret token _ hc ht hh =>
      refine .approved secret token a rfl hc rfl (hh.snoc ha) (fun current hcur => ?_)
      exact absurd (hcur.symm.trans ht) (by simp)
    | approved _ _ _ hp' | registering _ _ _ _ _ _ _ hp' => simp [hp] at hp'
  | issued ticket c polls hp hd hi =>
    cases hs _ rfl (Entry.live_of_approved hp) with
    | created _ hp' | claimed _ _ hp' => simp [hp] at hp'
    | approved secret token a _ hc hu hh ht =>
      cases hd.symm.trans hc
      refine .approved secret token a hp hc hu (hh.step x) (fun current hcur => ?_)
      exact ⟨ticket, c, (Option.some.inj hcur).symm, hh.snoc hi⟩
    | registering _ _ _ _ _ _ _ hp' => simp [hp] at hp'
  | @consumed _ current registration c hp ht hage hc hdead =>
    cases hs _ rfl (Entry.live_of_approved hp) with
    | created _ hp' | claimed _ _ hp' => simp [hp] at hp'
    | approved secret token a _ hch hu hh htick =>
      obtain ⟨ticket, c', rfl, hi⟩ := htick current ht
      refine .registering secret token ticket a c' c registration rfl hch hu rfl rfl hdead
        (lt_of_lt_of_le hage (min_le_left _ _)) ?_ (hi.snoc hc)
      rw [← hu]
      exact lt_of_lt_of_le hage (min_le_right _ _)
    | registering _ _ _ _ _ _ _ hp' => simp [hp] at hp'
  | retried hp =>
    cases hs _ rfl (Entry.live_of_registering hp) with
    | created _ hp' | claimed _ _ hp' | approved _ _ _ hp' => simp [hp] at hp'
    | registering secret token ticket a c c₁ registration _ hc hu ht hr hd h1 h2 hh =>
      have hpast : Happened ([Created id secret, Claimed ext id (hash ext secret.1) token, Approved id a] ++
        [Issued ext id (hash ext token.1) ticket c, Consumed ext id (hash ext ticket.1) c₁ registration]) l := hh
      refine .approved secret token a rfl hc hu (hpast.before.step x) (fun current hcur => ?_)
      exact absurd (hcur.symm.trans ht) (by simp)

theorem run_chain (h : Run ext l s) :
    ∀ id entry, s.store.entries.get id = some entry → entry.live = true → Chain ext id l entry := by
  refine Trace.history (P := fun l (s : Desk) =>
    ∀ id entry, s.store.entries.get id = some entry → entry.live = true → Chain ext id l entry) ?_ ?_ h
  · rintro s ⟨publicHost, login, hs, -⟩ id entry hg
    rw [hs] at hg
    cases hg
  · intro l s label t hr ih hstep id entry hg hl
    have he := step_effect (run_sound hr) hstep id
    rw [hg] at he
    exact Chain.snoc (fun src hsrc => ih id src hsrc) he hl

/-! ## Failed attempts -/

theorem claim_wellFormed {store dst : Pairings} {request : ClaimRequest} {userAgent : String}
    (hw : request.WellFormed userAgent) (hg : store.entries.get request.pairingId = some entry) {clock : Readings}
    {draw : Pairings.ClaimDraw} {events sent : EventSender} {answer : Except Failure ClaimResponse}
    (h : store.claim ext events request userAgent draw clock = .ok (answer, dst, sent)) :
    ∃ nonce entry', Pairings.claimEntry ext entry request userAgent store.login nonce draw (clock.now 0) events =
      .ok (answer, entry', sent) ∧ dst = store.put request.pairingId entry' := by
  obtain ⟨h1, h2, h3, h4, h5⟩ := hw
  obtain ⟨nonce, hn⟩ := isSome_iff_exists.1 h5
  have hguard : ¬ ((decode 16 request.pairingId).isNone = true ∨ (!validLabel request.deviceLabel) = true ∨
      userAgent.utf8ByteSize > 256 ∨
      (!userAgent.toList.all (fun c => Decidable.decide (32 ≤ c.toNat ∧ c.toNat ≤ 126))) = true) := by
    rw [h2, h4]
    rw [isSome_iff_ne_none] at h1
    simp [h1, h3]
  unfold Pairings.claim at h
  rw [if_neg hguard, hn, hg] at h
  simp only at h
  split at h
  · cases h
  · rename_i answer' entry' sent' he
    cases h
    exact ⟨nonce, entry', he, rfl⟩

theorem authenticate_failed {request : StatusRequest} (events : EventSender)
    (hl : (entry.expire now).live = true) (hw : ¬ ∃ digest ∈ entry.claimHash, Carries ext request.claimToken digest) :
    ∃ e dst sent, Pairings.authenticate ext (entry.expire now) request events = (.error e, dst, sent) ∧
      (dst.live = false ∨ entry.failures + 1 < 5 ∧ dst = { entry with failures := entry.failures + 1 }) := by
  rcases authenticate_expire ext entry request now events with h | ⟨-, hd | ⟨-, -, digest, hd, hc⟩⟩
  · exact h
  · rw [hl] at hd
    cases hd
  · exact absurd ⟨digest, hd, hc⟩ hw

/-- **Every failed attempt is counted**, as long as the pairing lives on. -/
theorem failed_counted (hs : ∀ id entry, s.store.entries.get id = some entry → entry.Sound) (h : Step ext s label t)
    (hf : Failed ext id ⟨s, label, t⟩) (hg : t.store.entries.get id = some dst)
    (hl : dst.live = true) : ∃ src, s.store.entries.get id = some src ∧ src.failures + 1 ≤ dst.failures := by
  obtain ⟨entry, hsrc, hlive, hop⟩ := hf
  obtain ⟨events, hstep⟩ := h.store
  obtain ⟨op, clock, outcome⟩ := label
  refine ⟨entry, hsrc, ?_⟩
  cases op with
  | claim request userAgent draw =>
    obtain ⟨rfl, hw, hnone, hc⟩ := hop
    simp only [Pairings.step] at hstep
    split at hstep
    · cases hstep
    · rename_i result hclaim
      obtain ⟨answer, store, sent⟩ := result
      simp only [Except.ok.injEq, Prod.mk.injEq] at hstep
      obtain ⟨nonce, entry', he, rfl⟩ := claim_wellFormed hw hsrc hclaim
      rw [← hstep.2.1, Pairings.put, get_insert_self] at hg
      cases hg
      rcases claimEntry_cases (hs _ _ hsrc) he with hover | ⟨-, -, rfl⟩ | ⟨-, -, hc', -⟩
      · simp [hover] at hl
      · exact Nat.le_refl _
      · exact absurd hc' hc
  | statusBegin request =>
    obtain ⟨rfl, hid, hw⟩ := hop
    obtain ⟨e, entry', sent, ha, hd⟩ := authenticate_failed s.events hlive hw
    have hb : s.store.statusBegin ext s.events request clock =
        (.error e, s.store.put request.pairingId entry', sent) := by
      unfold Pairings.statusBegin
      rw [if_neg (by rw [isNone_iff_eq_none]; exact isSome_iff_ne_none.1 hid), hsrc]
      simp only at ha ⊢
      rw [ha]
    simp only [Pairings.step, hb, Except.ok.injEq, Prod.mk.injEq] at hstep
    rw [← hstep.2.1, Pairings.put, get_insert_self] at hg
    cases hg
    rcases hd with hover | ⟨-, rfl⟩
    · simp [hover] at hl
    · exact Nat.le_refl _
  | statusEnd poll ticket =>
    obtain ⟨rfl, hw⟩ := hop
    obtain ⟨e, entry', sent, ha, hd⟩ := authenticate_failed s.events hlive hw
    have hb : s.store.statusEnd ext s.events poll ticket clock =
        (.error e, (s.store.put poll.request.pairingId entry').release poll, sent) := by
      unfold Pairings.statusEnd Pairings.statusEntry
      rw [hsrc]
      simp only at ha ⊢
      rw [ha]
    simp only [Pairings.step, hb, Except.ok.injEq, Prod.mk.injEq] at hstep
    rw [← hstep.2.1, release_get, if_pos rfl, Pairings.put, get_insert_self, map_some] at hg
    cases hg
    rcases hd with hover | ⟨-, rfl⟩
    · exact Bool.noConfusion (hl.symm.trans hover)
    · exact Nat.le_refl _
  | _ => cases hop

/-- **The failure counter knows every failed attempt**, and a live entry's is below five. -/
theorem run_failures (h : Run ext l s) : Fresh l → ∀ id entry, s.store.entries.get id = some entry → entry.live = true →
      entry.failures < 5 ∧ ∀ k, Happened (List.replicate k (Failed ext id)) l → k ≤ entry.failures := by
  refine Trace.history (P := fun l (s : Desk) => Fresh l → ∀ id entry, s.store.entries.get id = some entry →
    entry.live = true →
      entry.failures < 5 ∧ ∀ k, Happened (List.replicate k (Failed ext id)) l → k ≤ entry.failures) ?_ ?_ h
  · rintro s ⟨publicHost, login, hs, -⟩ _ id entry hg
    rw [hs] at hg
    cases hg
  · intro l s label t hr ih hstep hf id dst hg hl
    have heff := step_effect (run_sound hr) hstep id
    rw [hg] at heff
    rcases heff.wakes hl with ⟨src, hsrc, hlive, hle, h5⟩ | ⟨⟨secret, hc⟩, h0⟩
    · obtain ⟨ih5, ihk⟩ := ih hf.before id src hsrc hlive
      refine ⟨by omega, fun k hk => ?_⟩
      cases k with
      | zero => exact Nat.zero_le _
      | succ k =>
        rw [replicate_succ'] at hk
        rcases hk.of_snoc with hk | ⟨hy, hk⟩
        · rw [← replicate_succ'] at hk
          exact le_trans (ihk _ hk) hle
        · obtain ⟨src', hsrc', hcount⟩ := failed_counted (run_sound hr) hstep hy hg hl
          cases hsrc.symm.trans hsrc'
          exact le_trans (Nat.succ_le_succ (ihk k hk)) hcount
    · refine ⟨by omega, fun k hk => ?_⟩
      cases k with
      | zero => exact Nat.zero_le _
      | succ k =>
        obtain ⟨y, hy, hfail⟩ := hk.exists_of_mem mem_cons_self
        rcases mem_append.1 hy with hy | hy
        · obtain ⟨entry, he, -⟩ := hfail
          exact absurd (run_touched hr y hy id entry (.inl he)) (hf.not_named hc)
        · obtain rfl := mem_singleton.1 hy
          obtain ⟨_, _, _, hop⟩ := hfail
          obtain ⟨path, addToDevice, key, visit, hcreate, -⟩ := hc
          rw [hcreate] at hop
          cases hop

/-! ## The end of a pairing -/

theorem decideOn_rejected {store : Pairings} {events : EventSender} {key reason : String}
    {answer : AdminResult} : (store.decideOn events key .rejected reason now).1 = .ok answer →
      ∃ dst, (store.decideOn events key .rejected reason now).2.1.entries.get key = some dst ∧ dst.live = false := by
  unfold Pairings.decideOn
  split
  · intro h
    cases h
  · split
    · intro h
      cases h
    · exact fun h => ⟨_, get_insert_self _ _ _, decide_rejected h⟩

/-- **What kills a pairing leaves an entry that is over.** -/
theorem Killed.ended (hs : ∀ id entry, s.store.entries.get id = some entry → entry.Sound) (h : Step ext s label t)
    (hk : Killed id ⟨s, label, t⟩) : ∃ dst, t.store.entries.get id = some dst ∧ dst.live = false := by
  obtain ⟨events, hstep⟩ := h.store
  cases hk with
  | rejected hop hout | cancelled hop hout =>
    rw [hop, hout] at hstep
    simp only [Pairings.step, Pairings.command, Except.ok.injEq, Prod.mk.injEq, Outcome.command.injEq] at hstep
    obtain ⟨dst, hg, hd⟩ := decideOn_rejected hstep.1
    exact ⟨dst, by rw [hstep.2] at hg; exact hg, hd⟩
  | secondClaim hop hid hw hsrc hclaimed =>
    subst hid
    rw [hop] at hstep
    simp only [Pairings.step] at hstep
    split at hstep
    · cases hstep
    · rename_i result hclaim
      obtain ⟨answer, store, sent⟩ := result
      simp only [Except.ok.injEq, Prod.mk.injEq] at hstep
      obtain ⟨nonce, entry', he, rfl⟩ := claim_wellFormed hw hsrc hclaim
      rw [← hstep.2.1, Pairings.put, get_insert_self]
      refine ⟨entry', rfl, ?_⟩
      rcases claimEntry_cases (hs _ _ hsrc) he with hover | ⟨hnone, -⟩ | ⟨-, hnone, -⟩
      · exact hover
      · exact absurd hnone hclaimed
      · exact absurd hnone hclaimed
  | expired hg hstate => exact ⟨_, hg, by rw [Entry.live, hstate]⟩

/-- **What a successful finish checked, and left**: the registration under way, before its deadline; an entry that is
over. -/
theorem finished_spec {registration : Registration}
    (h : Step ext s label t) (hf : Finished id registration now ⟨s, label, t⟩) :
    (∃ entry current, s.store.entries.get id = some entry ∧ entry.live = true ∧ now < entry.deadline ∧
      entry.state = .registering ∧ entry.registration = some current ∧
      current.startedAt = registration.startedAt ∧ current.deadline = registration.deadline ∧
      current.deviceLabel = registration.deviceLabel ∧ current.addToDevice = registration.addToDevice) ∧
    ∃ dst, t.store.entries.get id = some dst ∧ dst.live = false := by
  obtain ⟨commit, hop, rfl, hout, rfl⟩ := hf
  obtain ⟨events, hstep⟩ := h.store
  obtain ⟨op, clock, outcome⟩ := label
  subst hop hout
  simp only [Pairings.step, Except.ok.injEq, Prod.mk.injEq, Outcome.finished.injEq] at hstep
  obtain ⟨hok, hstore, -⟩ := hstep
  rw [← hstore]
  revert hok
  unfold Pairings.finish
  split
  · intro hok
    cases hok
  rename_i entry hg
  simp only
  split
  · intro hok
    cases hok
  rename_i current hcur
  split
  · intro hok
    cases hok
  rename_i hcheck
  split
  · intro hok
    cases hok
  intro _
  simp only [not_or, not_not] at hcheck
  obtain ⟨hstate, hstart, hdead, hlabel, hadd⟩ := hcheck
  obtain ⟨he, hlive, hnow⟩ := Entry.expire_live (Entry.live_of_registering hstate)
  rw [he] at hstate hcur
  exact ⟨⟨entry, current, hg, hlive, hnow, hstate, hcur, hstart, hdead, hlabel, hadd⟩, _,
    get_insert_self _ _ _, rfl⟩

end Story

/-! ## An enrolment -/

instance (desk : Desk) (op : Op) : Decidable (op.enabled desk) :=
  match op with
  | .commandEnd command _ _ => inferInstanceAs (Decidable (command ∈ desk.commands))
  | .statusEnd poll _ | .statusDropped poll => inferInstanceAs (Decidable (poll ∈ desk.store.waiting))
  | .commandBegin _ _ | .claim _ _ _ | .statusBegin _ | .consumeTicket _ _ | .retryRegistration _ | .finish _ _
  | .maintenance _ => inferInstanceAs (Decidable True)

def Desk.next (ext : External) (s : Desk) (act : Op × Readings) : Option (Label × Desk) :=
  if act.1.enabled s ∧ s.clock ≤ act.2.now 0 then
    match s.step ext act.1 act.2 with
    | .error _ => none
    | .ok (outcome, t) => some (⟨act.1, act.2, outcome⟩, t)
  else none

theorem next_step {ext : External} (s : Desk) (act : Op × Readings) (label : Label) (t : Desk)
    (h : s.next ext act = some (label, t)) : Step ext s label t := by
  unfold Desk.next at h
  split at h
  · rename_i hen
    split at h
    · cases h
    · rename_i hstep
      cases h
      exact ⟨hen.1, hen.2, hstep⟩
  · cases h

namespace Sample

def filled (n : Nat) (byte : UInt8) : Bytes n := ⟨List.replicate n byte, List.length_replicate⟩

/-- The digests and the authentication code of the values drawn below. -/
def ext : External where
  sha256 value :=
    if value = (filled 32 6).1 then ⟨[232, 2, 8, 106, 214, 161, 225, 107, 120, 53, 42, 215, 41, 109, 42, 171, 216, 53,
      177, 177, 109, 190, 149, 30, 17, 53, 185, 124, 104, 226, 157, 129], rfl⟩
    else if value = (filled 32 2).1 then ⟨[117, 135, 123, 180, 29, 57, 59, 95, 184, 69, 92, 230, 14, 205, 141, 218, 0,
      29, 6, 49, 100, 150, 177, 77, 250, 127, 137, 86, 86, 238, 202, 74], rfl⟩
    else if value = (filled 32 3).1 then ⟨[100, 138, 165, 197, 121, 251, 48, 243, 138, 247, 68, 217, 125, 110, 200, 64,
      199, 169, 18, 119, 164, 153, 160, 215, 128, 243, 231, 49, 78, 202, 9, 11], rfl⟩
    else Bytes.zero 32
  hmacSha256 secret message :=
    if secret = (filled 32 6).1 ∧ message = Pairings.SAS_DOMAIN ++ (filled 32 4).1 ++ (filled 32 5).1 then
      ⟨[224, 84, 222, 141, 125, 173, 4, 23, 16, 136, 65, 40, 71, 162, 221, 215, 154, 225, 137, 120, 166, 8, 32, 30, 57,
        106, 152, 109, 252, 140, 154, 58], rfl⟩
    else Bytes.zero 32
  acceptsKey _ := false

def id : String := encode (filled 16 7).1

def started : Desk where
  store := Pairings.new "desktop.tailnet.ts.net" "user@example.com"
  commands := []
  events := ⟨fun _ => true, 0, []⟩
  clock := 0

def «at» (n : Nat) : Readings := Readings.const (seconds n)

def poll : Poll := ⟨⟨id, encode (filled 32 2).1⟩⟩

def registration : Registration := ⟨id, "Test phone", none, seconds 130, seconds 250⟩

/-- A phone enrols: claimed after 60 s, approved after 100 s, its ticket issued after 120 s, traded at 130 s. -/
def enrolment : List (Op × Readings) :=
  [(.commandBegin (.create "tailscale" none) Visit.plain, «at» 0),
    (.commandEnd (.create "tailscale" none) ⟨some (filled 16 7), some (filled 32 6)⟩ Visit.plain, «at» 0),
    (.claim ⟨id, encode (filled 32 6).1, "Test phone", encode (filled 32 4).1⟩ "Safari"
      ⟨some (filled 32 5), some (filled 32 2)⟩, «at» 60),
    (.commandBegin (.approve id) Visit.plain, «at» 100),
    (.commandEnd (.approve id) ⟨none, none⟩ Visit.plain, «at» 100),
    (.statusBegin poll.request, «at» 120),
    (.statusEnd poll (some (filled 32 3)), «at» 120),
    (.consumeTicket id (encode (filled 32 3).1), «at» 130),
    (.finish registration (.ok ()), «at» 140)]

def played : List (Transition Desk Label) × Desk := (Trace.play (Desk.next ext) enrolment [] started).getD ([], started)

theorem run_played : Run ext played.1 played.2 :=
  Trace.of_play next_step (.start ⟨"desktop.tailnet.ts.net", "user@example.com", rfl, rfl⟩ : Run ext [] started)
    (show Trace.play (Desk.next ext) enrolment [] started = some played by rfl)

end Sample

section Claim
variable {ext : External} {l : List (Transition Desk Label)} {s : Desk}

/-- The finish of a registration of the pairing succeeded, some time. -/
def Registered (id : String) (x : Transition Desk Label) : Prop := ∃ registration t, Finished id registration t x

theorem finished_once (h : Run ext l s) (hf : Fresh l) (id : String) : ¬ Happened [Registered id, Registered id] l := by
  refine Trace.history (P := fun l _ => Fresh l → ¬ Happened [Registered id, Registered id] l) ?_ ?_ h hf
  · rintro s - - ⟨xs, hs, hp⟩
    rw [sublist_nil.1 hs] at hp
    cases hp
  · intro l s label t hr ih hstep hf hh
    have hh : Happened ([Registered id] ++ [Registered id]) (l ++ [⟨s, label, t⟩]) := hh
    rcases hh.of_snoc with hh | ⟨⟨registration, now, hy⟩, hh⟩
    · exact ih hf.before hh
    · obtain ⟨x, hx, registration', now', hfin⟩ := hh.exists_of_mem mem_cons_self
      obtain ⟨past, later, rfl, hpast, hxstep⟩ := hr.transition x hx
      obtain ⟨-, dst, hg, hd⟩ := finished_spec hxstep hfin
      obtain ⟨⟨entry, current, he, hlive, -⟩, -⟩ := finished_spec hstep hy
      rw [run_over hr hf.before x hx id dst hg hd entry he] at hlive
      cases hlive

/-- **A registration has its whole story behind it.**  In every run whose created pairings have distinct identifiers the
commit of `finish` succeeds at most once for each pairing.  When it does, at `t`, the pairing was created, claimed with
its own secret while pending, approved at `a`, issued the consumed ticket at `c` to the holder of the claim token, and
the ticket consumed in time; the registration's own deadline is ahead; and nothing that ends a pairing happened. -/
theorem registration_story (h : Run ext l s) (hf : Fresh l) (id : String) :
    ¬ Happened [Registered id, Registered id] l ∧
    ∀ past x later registration t, l = past ++ x :: later → Finished id registration t x →
      (∃ (secret token ticket : Bytes 32) (a c c₁ : Timestamp),
        Happened [Created id secret, Claimed ext id (hash ext secret.1) token, Approved id a,
          Issued ext id (hash ext token.1) ticket c, Consumed ext id (hash ext ticket.1) c₁ registration] past ∧
        c₁ < c.after (seconds 120) ∧ c₁ < a.after (seconds 600) ∧ t < registration.deadline ∧
        registration.deadline = min (registration.startedAt.after (seconds 120)) (a.after (seconds 600))) ∧
      ¬ Happened (List.replicate 5 (Failed ext id)) past ∧ ∀ y ∈ past, ¬ Killed id y := by
  refine ⟨finished_once h hf id, fun past x later registration t hl hx => ?_⟩
  obtain ⟨hpast, hstep⟩ := Trace.split h hl
  have hfp : Fresh past := Fresh.before (hl ▸ hf)
  obtain ⟨⟨entry, current, hg, hlive, hnow, hstate, hcur, hstart, hdead, hlabel, hadd⟩, -⟩ := finished_spec hstep hx
  refine ⟨?_, ?_, ?_⟩
  · cases run_chain hpast id entry hg hlive with
    | created _ hp | claimed _ _ hp | approved _ _ _ hp => simp [hstate] at hp
    | registering secret token ticket a c c₁ issued _ _ hu _ hr hd h1 h2 hh =>
      have heq : issued = registration := by
        obtain ⟨y, hy, text, -, -, -, hid, -⟩ := hh.exists_of_mem (mem_cons_of_mem _ (mem_cons_of_mem _
          (mem_cons_of_mem _ (mem_cons_of_mem _ mem_cons_self))))
        obtain rfl := Option.some.inj (hr.symm.trans hcur)
        obtain ⟨commit, -, hid', -⟩ := hx
        cases issued
        cases registration
        simp_all
      subst heq
      have hdl : entry.deadline = issued.deadline := by rw [Entry.deadline, hr, map_some, getD_some]
      exact ⟨secret, token, ticket, a, c, c₁, hh, h1, h2, hdl ▸ hnow, hu ▸ hd⟩
  · intro hfail
    obtain ⟨h5, hcount⟩ := run_failures hpast hfp id entry hg hlive
    exact absurd (hcount 5 hfail) (not_le.2 h5)
  · intro y hy hk
    obtain ⟨_, _, -, hy', hystep⟩ := hpast.transition y hy
    obtain ⟨dst, hgd, hd⟩ := Killed.ended (run_sound hy') hystep hk
    rw [run_over hpast hfp y hy id dst hgd hd entry hg] at hlive
    cases hlive

/-- A phone's enrolment, played: the finish at 140 s has its story behind it. -/
theorem registration_story_enrolled : ∃ past x, Sample.played.1 = past ++ [x] ∧
    Finished Sample.id Sample.registration (seconds 140) x ∧
    (∃ (secret token ticket : Bytes 32) (a c c₁ : Timestamp),
      Happened [Created Sample.id secret, Claimed Sample.ext Sample.id (hash Sample.ext secret.1) token,
        Approved Sample.id a, Issued Sample.ext Sample.id (hash Sample.ext token.1) ticket c,
        Consumed Sample.ext Sample.id (hash Sample.ext ticket.1) c₁ Sample.registration] past ∧
      c₁ < c.after (seconds 120) ∧ c₁ < a.after (seconds 600) ∧ seconds 140 < Sample.registration.deadline ∧
      Sample.registration.deadline =
        min (Sample.registration.startedAt.after (seconds 120)) (a.after (seconds 600))) ∧
    ∀ y ∈ past, ¬ Killed Sample.id y := by
  have hsplit : ∃ past x, Sample.played.1 = past ++ [x] ∧
      Finished Sample.id Sample.registration (seconds 140) x :=
    ⟨Sample.played.1.take 8, Sample.played.1.get ⟨8, by decide⟩, by rfl, .ok (), by rfl, by rfl, by rfl, by rfl⟩
  obtain ⟨past, x, hl, hx⟩ := hsplit
  obtain ⟨hstory, -, hkilled⟩ :=
    (registration_story Sample.run_played (by unfold Fresh; decide) Sample.id).2 past x [] _ _ hl hx
  exact ⟨past, x, hl, hx, hstory, hkilled⟩

end Claim

end Pairing
end Yuzora
