import Yuzora.SessionBounds
/-!
# CeremonyRuns — the challenges over whole runs

Every call but an insertion only drops ceremonies (`Fewer`); an insertion drops some and files one (`insert_cases`).  From
this: the bounds of the three pools, the order of the logins, and who takes what (`ceremonies_conduct`).
-/
namespace Yuzora

def CeremonyKind.isLogin : CeremonyKind → Bool
  | .login _ => true
  | _ => false

variable {kind : CeremonyKind}

theorem CeremonyKind.elevationSession_of_isLogin (h : kind.isLogin = true) : kind.elevationSession = none := by
  cases kind <;> first | rfl | cases h

namespace Ceremonies

open List Table

inductive Op
  | insert (ceremony : Ceremony)
  | takeRegistration (pairingId : String) (challenge : Option SentChallenge)
  | takeAssertion (challenge : Option SentChallenge) (session : Option (Bytes 32 × Scope))
  | purge
  | retainSessions (active : List (Bytes 32))

structure Call where
  op : Op
  now : Timestamp

variable (self : Ceremonies)

def next (call : Call) : Ceremonies :=
  match call.op with
  | .insert ceremony => (self.insert ceremony call.now).2
  | .takeRegistration pairingId challenge => (self.takeRegistration pairingId challenge call.now).2
  | .takeAssertion challenge session => (self.takeAssertion challenge session call.now).2
  | .purge => self.purge call.now
  | .retainSessions active => self.retainSessions active

def filed (call : Call) : Option Ceremony :=
  match call.op with
  | .insert ceremony => (self.insert ceremony call.now).1.toOption.map fun _ => ceremony
  | _ => none

def took (call : Call) : Option Ceremony :=
  match call.op with
  | .takeRegistration pairingId challenge => (self.takeRegistration pairingId challenge call.now).1.toOption
  | .takeAssertion challenge session => (self.takeAssertion challenge session call.now).1.toOption
  | _ => none

/-- The kind, the pairing, the session and the scope that a take asks for. -/
def Asks : Op → CeremonyKind → Prop
  | .takeRegistration pairingId challenge, .registration pairing _ state =>
    pairing.pairingId = pairingId ∧ challenge = some state
  | .takeAssertion challenge none, .login state => challenge = some state
  | .takeAssertion challenge (some (id, requested)), .elevation session scope state =>
    session = id ∧ scope = requested ∧ challenge = some state
  | _, _ => False

def Op.isTake : Op → Bool
  | .takeRegistration _ _ | .takeAssertion _ _ => true
  | _ => false

def Op.challenge : Op → Option SentChallenge
  | .insert ceremony => some ceremony.kind.state
  | _ => none

abbrev Run (maxDevices : Nat) := Trace (fun s => s = new maxDevices) (fun s (call : Call) t => t = next s call)

abbrev History := List (Transition Ceremonies Call)

variable (l : History)

def challenges : List SentChallenge := l.filterMap (fun x => x.label.op.challenge)
def inserted : List Ceremony := l.filterMap (fun x => x.src.filed x.label)
def taken : List Ceremony := l.filterMap (fun x => x.src.took x.label)

def logins : List SentChallenge := ((inserted l).filter (·.kind.isLogin)).map (·.kind.state)

def holdsLogin (k : SentChallenge) : Bool := (self.entries.get k).any (·.kind.isLogin)

variable {s t r : Ceremonies} {l l' : History} {maxDevices : Nat} {k : SentChallenge} {c : Ceremony} {call : Call}
  {now : Timestamp}

/-! ## What a call drops -/

structure Fewer (s t : Ceremonies) : Prop where
  get : ∀ k c, t.entries.get k = some c → s.entries.get k = some c
  count : ∀ p, t.entries.count p ≤ s.entries.count p
  order : t.loginOrder.Sublist s.loginOrder
  keeps : ∀ k ∈ s.loginOrder, t.entries.contains k = true → k ∈ t.loginOrder
  limit : t.elevationLimit = s.elevationLimit

theorem Fewer.refl (s : Ceremonies) : Fewer s s :=
  ⟨fun _ _ h => h, fun _ => Nat.le_refl _, List.Sublist.refl _, fun _ h _ => h, rfl⟩

theorem Fewer.contains (h : Fewer s t) (hk : t.entries.contains k = true) : s.entries.contains k = true := by
  obtain ⟨c, hc⟩ := contains_eq_true.1 hk
  exact contains_eq_true.2 ⟨c, h.get k c hc⟩

theorem Fewer.none (h : Fewer s t) (hk : s.entries.get k = none) : t.entries.get k = none := by
  cases hc : t.entries.get k with
  | none => rfl
  | some c => rw [h.get k c hc] at hk; cases hk

theorem Fewer.trans (h : Fewer s t) (h' : Fewer t r) : Fewer s r where
  get k c hc := h.get k c (h'.get k c hc)
  count p := Nat.le_trans (h'.count p) (h.count p)
  order := h'.order.trans h.order
  keeps k hk hc := h'.keeps k (h.keeps k hk (h'.contains hc)) hc
  limit := h'.limit.trans h.limit

theorem get_of_retain {p : SentChallenge → Ceremony → Bool} {entries : Table SentChallenge Ceremony}
    (h : (entries.retain p).get k = some c) : entries.get k = some c ∧ p k c = true := by
  rwa [get_retain, Option.filter_eq_some_iff] at h

theorem fewer_retain (s : Ceremonies) (p : SentChallenge → Ceremony → Bool) :
    Fewer s { s with entries := s.entries.retain p } :=
  ⟨fun _ _ h => (get_of_retain h).1, fun q => count_retain_le _ q p, List.Sublist.refl _, fun _ h _ => h, rfl⟩

theorem fewer_purge (s : Ceremonies) (now : Timestamp) : Fewer s (s.purge now) where
  get _ _ h := (get_of_retain h).1
  count q := count_retain_le _ q _
  order := filter_sublist
  keeps k hk hc := mem_filter.2 ⟨hk, hc⟩
  limit := rfl

theorem fewer_erase (s : Ceremonies) (k : SentChallenge) : Fewer s { s with entries := s.entries.erase k } :=
  fewer_retain s _

theorem get_purge : (s.purge now).entries.get k = some c ↔ s.entries.get k = some c ∧ now < c.until := by
  simp only [purge, get_retain, Option.filter_eq_some_iff, decide_eq_true_eq]

/-! ## Takes -/

/-- **What a take does**: it is refused after a purge, or hands out the one ceremony that was asked for. -/
theorem take_cases (h : call.op.isTake = true) (hkeyed : ∀ k c, s.entries.get k = some c → c.kind.state = k) :
    (s.took call = none ∧ s.next call = s.purge call.now) ∨
      ∃ c, s.took call = some c ∧ (s.purge call.now).entries.get c.kind.state = some c ∧ Asks call.op c.kind ∧
        s.next call = { s.purge call.now with entries := (s.purge call.now).entries.erase c.kind.state } := by
  obtain ⟨op, now⟩ := call
  cases op with
  | takeRegistration pairingId challenge =>
    cases challenge with
    | none => exact .inl ⟨rfl, rfl⟩
    | some key =>
      cases hget : (s.purge now).entries.get key with
      | none => simp [took, next, takeRegistration, hget, Except.toOption]
      | some c =>
        by_cases hbound : c.kind.pairingId = some pairingId
        · have hkey := hkeyed key c (get_purge.1 hget).1
          simp only [took, next, takeRegistration, hget, if_pos hbound]
          refine .inr ⟨c, rfl, hkey ▸ hget, ?_, by rw [hkey]⟩
          cases hkind : c.kind with
          | registration pairing deviceId state =>
            rw [hkind] at hbound hkey
            exact ⟨Option.some.inj hbound, congrArg some hkey.symm⟩
          | login state | elevation session scope state => rw [hkind] at hbound; cases hbound
        · simp [took, next, takeRegistration, hget, hbound, Except.toOption]
  | takeAssertion challenge session =>
    cases challenge with
    | none => exact .inl ⟨rfl, rfl⟩
    | some key =>
      cases hget : (s.purge now).entries.get key with
      | none => simp [took, next, takeAssertion, hget, Except.toOption]
      | some c =>
        by_cases hbound : bound c.kind session = true
        · have hkey := hkeyed key c (get_purge.1 hget).1
          simp only [took, next, takeAssertion, hget, if_pos hbound]
          refine .inr ⟨c, rfl, hkey ▸ hget, ?_, by rw [hkey]⟩
          cases hkind : c.kind with
          | registration pairing deviceId state => rw [hkind] at hbound; cases session <;> cases hbound
          | login state =>
            rw [hkind] at hbound hkey
            cases session with
            | none => exact congrArg some hkey.symm
            | some session => cases hbound
          | elevation session' scope state =>
            rw [hkind] at hbound hkey
            cases session with
            | none => cases hbound
            | some session =>
              have hbound := of_decide_eq_true hbound
              exact ⟨hbound.1, hbound.2, congrArg some hkey.symm⟩
        · simp [took, next, takeAssertion, hget, hbound, Except.toOption]
  | insert _ | purge | retainSessions _ => cases h

/-! ## Insertions -/

/-- There is room for a ceremony. -/
structure Room (r : Ceremonies) (kind : CeremonyKind) : Prop where
  login : kind.isLogin = true → r.loginOrder.length < LOGIN_LIMIT
  elevation : ∀ session, kind.elevationSession = some session →
    r.entries.count (fun _ c => c.kind.elevationSession.isSome) < r.elevationLimit ∧
      ∀ k c, r.entries.get k = some c → c.kind.elevationSession ≠ some session
  registration : ∀ pairingId, kind.pairingId = some pairingId →
    r.entries.count (fun _ c => c.kind.pairingId.isSome) < REGISTRATION_LIMIT ∧
      ∀ k c, r.entries.get k = some c → c.kind.pairingId ≠ some pairingId

def file (r : Ceremonies) (ceremony : Ceremony) : Ceremonies :=
  { r with
    entries := r.entries.insert ceremony.kind.state ceremony
    loginOrder := if ceremony.kind.isLogin then r.loginOrder ++ [ceremony.kind.state] else r.loginOrder }

theorem makeRoom_room (h : s.makeRoom kind = .ok r) (hlength : s.loginOrder.length ≤ LOGIN_LIMIT) :
    Fewer s r ∧ Room r kind := by
  cases kind with
  | login state =>
    simp only [makeRoom] at h
    have hroom : r.loginOrder.length < LOGIN_LIMIT → Room r (.login state) :=
      fun hr => ⟨fun _ => hr, fun _ h => (by cases h), fun _ h => (by cases h)⟩
    cases horder : s.loginOrder with
    | nil =>
      rw [horder] at h
      cases h
      exact ⟨.refl s, hroom (by simp [horder, LOGIN_LIMIT])⟩
    | cons oldest rest =>
      rw [horder] at h hlength
      simp only at h
      rw [length_cons] at hlength
      by_cases hfull : rest.length + 1 ≥ LOGIN_LIMIT
      · rw [if_pos hfull] at h
        cases h
        refine ⟨?_, hroom (by simp only; omega)⟩
        have hf := fewer_erase s oldest
        refine ⟨hf.get, hf.count, by rw [horder]; exact sublist_cons_self .., fun k hk hc => ?_, rfl⟩
        rw [horder] at hk
        rcases mem_cons.1 hk with rfl | hk
        · obtain ⟨c, hget⟩ := contains_eq_true.1 hc
          rw [get_erase_self] at hget
          cases hget
        · exact hk
      · rw [if_neg hfull] at h
        cases h
        exact ⟨.refl s, hroom (by rw [horder, length_cons]; omega)⟩
  | registration pairing deviceId state =>
    simp only [makeRoom] at h
    by_cases hfull : s.entries.count (fun _ c => c.kind.pairingId.isSome) ≥ REGISTRATION_LIMIT ∨
        s.entries.values.any (fun c => decide (c.kind.pairingId = some pairing.pairingId)) = true
    · rw [if_pos hfull] at h
      cases h
    · rw [if_neg hfull] at h
      cases h
      refine ⟨.refl _, fun h => (by cases h), fun _ h => (by cases h), fun id hid => ?_⟩
      cases hid
      obtain ⟨hcount, hnone⟩ := not_or.1 hfull
      refine ⟨by omega, fun k c hget hsame => hnone (any_eq_true.2 ⟨c, ?_, decide_eq_true hsame⟩)⟩
      exact mem_map.2 ⟨(k, c), get_eq_some.1 hget, rfl⟩
  | elevation session scope state =>
    simp only [makeRoom] at h
    by_cases hfull : (s.entries.retain (fun _ c => decide (c.kind.elevationSession ≠ some session))).count
        (fun _ c => c.kind.elevationSession.isSome) ≥ s.elevationLimit
    · rw [if_pos hfull] at h
      cases h
    · rw [if_neg hfull] at h
      cases h
      refine ⟨fewer_retain s _, fun h => (by cases h), fun id hid => ?_, fun _ h => (by cases h)⟩
      cases hid
      exact ⟨Nat.lt_of_not_ge hfull, fun k c hget => of_decide_eq_true (get_of_retain hget).2⟩

theorem fewer_refusedRoom (s : Ceremonies) (kind : CeremonyKind) : Fewer s (s.refusedRoom kind) := by
  cases kind with
  | elevation session scope state => exact fewer_retain s _
  | login _ | registration _ _ _ => exact .refl s

/-- **What an insertion does**: it is refused and drops ceremonies, or drops some and files one. -/
theorem insert_cases (s : Ceremonies) (ceremony : Ceremony) (now : Timestamp) (hlength : s.loginOrder.length ≤ LOGIN_LIMIT) :
    (s.filed ⟨.insert ceremony, now⟩ = none ∧ Fewer s (s.next ⟨.insert ceremony, now⟩)) ∨
      (s.filed ⟨.insert ceremony, now⟩ = some ceremony ∧ ∃ r, (s.purge now).makeRoom ceremony.kind = .ok r ∧ Fewer s r ∧
        Room r ceremony.kind ∧ s.next ⟨.insert ceremony, now⟩ = r.file ceremony) := by
  have hp := fewer_purge s now
  simp only [filed, next, Ceremonies.insert]
  cases hroom : (s.purge now).makeRoom ceremony.kind with
  | error e => exact .inl ⟨rfl, hp.trans (fewer_refusedRoom _ _)⟩
  | ok r =>
    obtain ⟨hf, hr⟩ := makeRoom_room hroom (Nat.le_trans hp.order.length_le hlength)
    refine .inr ⟨rfl, r, rfl, hp.trans hf, hr, ?_⟩
    simp only [file]
    cases ceremony.kind <;> rfl

/-! ## The invariant -/

structure Sound (maxDevices : Nat) (l : History) (s : Ceremonies) : Prop where
  keyed : ∀ k c, s.entries.get k = some c → c.kind.state = k ∧ c ∈ inserted l
  order : s.loginOrder.Sublist (logins l)
  ordered : ∀ k c, s.entries.get k = some c → c.kind.isLogin = true → k ∈ s.loginOrder
  length : s.loginOrder.length ≤ LOGIN_LIMIT
  limit : s.elevationLimit = maxDevices * 4
  registrations : s.entries.count (fun _ c => c.kind.pairingId.isSome) ≤ REGISTRATION_LIMIT
  elevations : s.entries.count (fun _ c => c.kind.elevationSession.isSome) ≤ s.elevationLimit
  pairings : ∀ k k' c c' pairingId, s.entries.get k = some c → s.entries.get k' = some c' →
    c.kind.pairingId = some pairingId → c'.kind.pairingId = some pairingId → k = k'
  sessions : s.Distinct
  origin : ∀ c ∈ taken l, c ∈ inserted l
  gone : ∀ c ∈ taken l, s.entries.get c.kind.state = none
  once : ((taken l).map (·.kind.state)).Nodup

theorem sound_new (maxDevices : Nat) : Sound maxDevices [] (new maxDevices) where
  keyed _ _ h := by simp [new] at h
  order := List.Sublist.refl _
  ordered _ _ h := by simp [new] at h
  length := Nat.zero_le _
  limit := rfl
  registrations := Nat.zero_le _
  elevations := Nat.zero_le _
  pairings _ _ _ _ _ h := by simp [new] at h
  sessions _ _ _ _ _ h := by simp [new] at h
  origin _ h := by cases h
  gone _ h := by cases h
  once := nodup_nil

theorem Sound.fewer (h : Sound maxDevices l s) (hf : Fewer s t) (hinserted : inserted l' = inserted l)
    (htaken : taken l' = taken l) : Sound maxDevices l' t where
  keyed k c hc := hinserted ▸ h.keyed k c (hf.get k c hc)
  order := by
    rw [logins, hinserted]
    exact hf.order.trans h.order
  ordered k c hc hl := hf.keeps k (h.ordered k c (hf.get k c hc) hl) (contains_eq_true.2 ⟨c, hc⟩)
  length := Nat.le_trans hf.order.length_le h.length
  limit := hf.limit.trans h.limit
  registrations := Nat.le_trans (hf.count _) h.registrations
  elevations := by
    rw [hf.limit]
    exact Nat.le_trans (hf.count _) h.elevations
  pairings k k' c c' id hc hc' := h.pairings k k' c c' id (hf.get k c hc) (hf.get k' c' hc')
  sessions k k' c c' session hc hc' := h.sessions k k' c c' session (hf.get k c hc) (hf.get k' c' hc')
  origin := by rw [htaken, hinserted]; exact h.origin
  gone := by rw [htaken]; exact fun c hc => hf.none (h.gone c hc)
  once := by rw [htaken]; exact h.once

theorem Sound.take (h : Sound maxDevices l s) (hc : s.entries.get c.kind.state = some c)
    (hinserted : inserted l' = inserted l) (htaken : taken l' = taken l ++ [c]) :
    Sound maxDevices l' { s with entries := s.entries.erase c.kind.state } where
  keyed k e he := hinserted ▸ h.keyed k e ((fewer_erase s _).get k e he)
  order := by
    rw [logins, hinserted]
    exact h.order
  ordered k e he hl := h.ordered k e ((fewer_erase s _).get k e he) hl
  length := h.length
  limit := h.limit
  registrations := Nat.le_trans ((fewer_erase s _).count _) h.registrations
  elevations := Nat.le_trans ((fewer_erase s _).count _) h.elevations
  pairings k k' e e' id he he' := h.pairings k k' e e' id ((fewer_erase s _).get k e he) ((fewer_erase s _).get k' e' he')
  sessions k k' e e' id he he' := h.sessions k k' e e' id ((fewer_erase s _).get k e he) ((fewer_erase s _).get k' e' he')
  origin e he := by
    rw [htaken, mem_append, mem_singleton] at he
    rw [hinserted]
    rcases he with he | rfl
    · exact h.origin e he
    · exact (h.keyed _ _ hc).2
  gone e he := by
    rw [htaken, mem_append, mem_singleton] at he
    rcases he with he | rfl
    · exact (fewer_erase s _).none (h.gone e he)
    · exact get_erase_self ..
  once := by
    rw [htaken, map_append, map_singleton, nodup_append]
    refine ⟨h.once, nodup_singleton _, ?_⟩
    intro state hstate state' hstate' heq
    obtain ⟨e, he, rfl⟩ := mem_map.1 hstate
    obtain rfl := mem_singleton.1 hstate'
    have := h.gone e he
    rw [heq, hc] at this
    cases this

theorem Sound.file (h : Sound maxDevices l s) (hroom : Room s c.kind)
    (hfresh : ∀ e ∈ inserted l, e.kind.state ≠ c.kind.state) (hinserted : inserted l' = inserted l ++ [c])
    (htaken : taken l' = taken l) : Sound maxDevices l' (s.file c) := by
  have hget : ∀ k e, (s.file c).entries.get k = some e → (k = c.kind.state ∧ e = c) ∨ s.entries.get k = some e := by
    intro k e he
    simp only [Ceremonies.file, get_insert] at he
    by_cases hk : k = c.kind.state
    · rw [if_pos hk] at he
      exact .inl ⟨hk, (Option.some.inj he).symm⟩
    · rw [if_neg hk] at he
      exact .inr he
  have hlogins : logins l' = logins l ++ if c.kind.isLogin then [c.kind.state] else [] := by
    by_cases hl : c.kind.isLogin = true <;> simp [logins, hinserted, filter_append, hl]
  exact {
    keyed := by
      intro k e he
      rw [hinserted, mem_append, mem_singleton]
      rcases hget k e he with ⟨rfl, rfl⟩ | he
      · exact ⟨rfl, .inr rfl⟩
      · exact ⟨(h.keyed k e he).1, .inl (h.keyed k e he).2⟩
    order := by
      rw [hlogins, Ceremonies.file]
      by_cases hl : c.kind.isLogin = true
      · simpa [hl] using h.order
      · simpa [hl] using h.order
    ordered := by
      intro k e he hl
      rcases hget k e he with ⟨rfl, rfl⟩ | he
      · simp [Ceremonies.file, hl]
      · have := h.ordered k e he hl
        simp only [Ceremonies.file]
        split
        · exact mem_append_left _ this
        · exact this
    length := by
      by_cases hl : c.kind.isLogin = true
      · have := hroom.login hl
        simp only [Ceremonies.file, hl, if_true, length_append, length_singleton]
        omega
      · simpa [Ceremonies.file, hl] using h.length
    limit := h.limit
    registrations := by
      refine Nat.le_trans (count_insert_le ..) ?_
      have := h.registrations
      cases hid : c.kind.pairingId with
      | none => simpa using this
      | some id =>
        have := (hroom.registration id hid).1
        simp only [Option.isSome_some, if_true]
        omega
    elevations := by
      refine Nat.le_trans (count_insert_le ..) ?_
      have := h.elevations
      cases hid : c.kind.elevationSession with
      | none => simpa [Ceremonies.file] using this
      | some id =>
        have := (hroom.elevation id hid).1
        simp only [Option.isSome_some, if_true, Ceremonies.file]
        omega
    pairings := by
      intro k k' e e' id he he' hid hid'
      rcases hget k e he with ⟨rfl, rfl⟩ | hold
      · rcases hget k' e' he' with ⟨rfl, rfl⟩ | he'
        · rfl
        · exact absurd hid' ((hroom.registration id hid).2 k' e' he')
      · rcases hget k' e' he' with ⟨rfl, rfl⟩ | he'
        · exact absurd hid ((hroom.registration id hid').2 k e hold)
        · exact h.pairings k k' e e' id hold he' hid hid'
    sessions := by
      intro k k' e e' id he he' hid hid'
      rcases hget k e he with ⟨rfl, rfl⟩ | hold
      · rcases hget k' e' he' with ⟨rfl, rfl⟩ | he'
        · rfl
        · exact absurd hid' ((hroom.elevation id hid).2 k' e' he')
      · rcases hget k' e' he' with ⟨rfl, rfl⟩ | he'
        · exact absurd hid ((hroom.elevation id hid').2 k e hold)
        · exact h.sessions k k' e e' id hold he' hid hid'
    origin := by
      intro e he
      rw [htaken] at he
      rw [hinserted]
      exact mem_append_left _ (h.origin e he)
    gone := by
      intro e he
      rw [htaken] at he
      simp only [Ceremonies.file, get_insert, if_neg (hfresh e (h.origin e he))]
      exact h.gone e he
    once := by
      rw [htaken]
      exact h.once }

/-! ## Runs -/

@[simp] theorem challenges_snoc (l : History) (x : Transition Ceremonies Call) :
    challenges (l ++ [x]) = challenges l ++ x.label.op.challenge.toList := by
  cases h : x.label.op.challenge <;> simp [challenges, filterMap_append, h]

@[simp] theorem inserted_snoc (l : History) (x : Transition Ceremonies Call) :
    inserted (l ++ [x]) = inserted l ++ (x.src.filed x.label).toList := by
  cases h : x.src.filed x.label <;> simp [inserted, filterMap_append, h]

@[simp] theorem taken_snoc (l : History) (x : Transition Ceremonies Call) :
    taken (l ++ [x]) = taken l ++ (x.src.took x.label).toList := by
  cases h : x.src.took x.label <;> simp [taken, filterMap_append, h]

theorem inserted_sublist (l : History) : ((inserted l).map (·.kind.state)).Sublist (challenges l) := by
  induction l using List.reverseRecOn with
  | nil => exact List.Sublist.refl _
  | append_singleton l x ih =>
    rw [inserted_snoc, challenges_snoc, map_append]
    refine ih.append ?_
    rcases x with ⟨src, ⟨op, now⟩, dst⟩
    cases op with
    | insert c =>
      simp only [filed, Op.challenge]
      cases (src.insert c now).1.toOption <;> simp
    | _ => exact List.Sublist.refl _

theorem Sound.next_take (h : Sound maxDevices l s) (htake : call.op.isTake = true) :
    Sound maxDevices (l ++ [⟨s, call, s.next call⟩]) (s.next call) := by
  have hfiled : s.filed call = none := by
    rcases call with ⟨op, now⟩
    cases op <;> first | rfl | cases htake
  rcases take_cases htake fun k c hc => (h.keyed k c hc).1 with ⟨htook, hnext⟩ | ⟨c, htook, hget, -, hnext⟩
  · exact h.fewer (hnext ▸ fewer_purge s _) (by simp [hfiled]) (by simp [htook])
  · rw [hnext]
    exact (h.fewer (fewer_purge s call.now) rfl rfl).take hget (by simp [hfiled]) (by simp [htook])

theorem sound_run (h : Run maxDevices l s) (hdistinct : (challenges l).Nodup) : Sound maxDevices l s := by
  refine Trace.history (P := fun l s => (challenges l).Nodup → Sound maxDevices l s) ?_ ?_ h hdistinct
  · rintro s rfl -
    exact sound_new maxDevices
  · rintro l s ⟨op, now⟩ t - ih rfl hdistinct
    rw [challenges_snoc] at hdistinct
    have h := ih (hdistinct.sublist (sublist_append_left ..))
    -- calls that neither file nor hand out
    have plain : ∀ t', s.filed ⟨op, now⟩ = none → s.took ⟨op, now⟩ = none → Fewer s t' →
        Sound maxDevices (l ++ [⟨s, ⟨op, now⟩, t'⟩]) t' :=
      fun t' hfiled htook hf => h.fewer hf (by simp [hfiled]) (by simp [htook])
    cases op with
    | insert c =>
      rcases insert_cases s c now h.length with ⟨hfiled, hf⟩ | ⟨hfiled, r, -, hf, hroom, hnext⟩
      · exact plain _ hfiled rfl hf
      · rw [hnext]
        refine (h.fewer hf rfl rfl).file hroom (fun e he heq => ?_) (by simp [hfiled]) (by simp [took])
        have hmem := (inserted_sublist l).subset (mem_map.2 ⟨e, he, rfl⟩)
        exact (nodup_append.1 hdistinct).2.2 _ hmem c.kind.state (by simp [Op.challenge]) heq
    | purge => exact plain _ rfl rfl (fewer_purge s now)
    | retainSessions active => exact plain _ rfl rfl (fewer_retain s _)
    | takeRegistration | takeAssertion => exact h.next_take rfl

/-! ## The order of the logins -/

theorem eq_of_state {c e : Ceremony} (hdistinct : (challenges l).Nodup) (hc : c ∈ inserted l) (he : e ∈ inserted l)
    (h : c.kind.state = e.kind.state) : c = e :=
  inj_on_of_nodup_map (hdistinct.sublist (inserted_sublist l)) hc he h

theorem logins_nodup (hdistinct : (challenges l).Nodup) : (logins l).Nodup :=
  (hdistinct.sublist (inserted_sublist l)).sublist (filter_sublist.map _)

theorem Sound.isLogin (h : Sound maxDevices l s) (hdistinct : (challenges l).Nodup)
    (hk : k ∈ s.loginOrder) (hc : s.entries.get k = some c) : c.kind.isLogin = true := by
  obtain ⟨e, he, hstate⟩ := mem_map.1 (h.order.subset hk)
  obtain ⟨he, hlogin⟩ := mem_filter.1 he
  obtain ⟨hkc, hci⟩ := h.keyed k c hc
  rwa [eq_of_state hdistinct hci he (hkc.trans hstate.symm)]

def InStep (s : Ceremonies) : Prop := ∀ k ∈ s.loginOrder, s.entries.contains k = true

theorem inStep_purge (s : Ceremonies) (now : Timestamp) : (s.purge now).InStep :=
  fun _ hk => (mem_filter.1 hk).2

theorem InStep.retain (h : s.InStep) (hs : Sound maxDevices l s) (hdistinct : (challenges l).Nodup) (session : Bytes 32) :
    InStep { s with entries := s.entries.retain (fun _ c => decide (c.kind.elevationSession ≠ some session)) } := by
  intro k hk
  obtain ⟨c, hc⟩ := contains_eq_true.1 (h k hk)
  have hlogin := CeremonyKind.elevationSession_of_isLogin (hs.isLogin hdistinct hk hc)
  refine contains_eq_true.2 ⟨c, ?_⟩
  simp [get_retain, hc, hlogin]

theorem InStep.makeRoom (h : s.InStep) (hs : Sound maxDevices l s) (hdistinct : (challenges l).Nodup)
    (hroom : s.makeRoom kind = .ok r) : r.InStep := by
  cases kind with
  | login state =>
    simp only [Ceremonies.makeRoom] at hroom
    cases horder : s.loginOrder with
    | nil =>
      rw [horder] at hroom
      cases hroom
      exact h
    | cons oldest rest =>
      rw [horder] at hroom
      simp only at hroom
      by_cases hfull : rest.length + 1 ≥ LOGIN_LIMIT
      · rw [if_pos hfull] at hroom
        cases hroom
        intro k hk
        have hnodup := (logins_nodup hdistinct).sublist hs.order
        rw [horder] at hnodup
        have hne : k ≠ oldest := fun he => (nodup_cons.1 hnodup).1 (he ▸ hk)
        obtain ⟨c, hc⟩ := contains_eq_true.1 (h k (by rw [horder]; exact mem_cons_of_mem _ hk))
        exact contains_eq_true.2 ⟨c, by rw [get_erase, if_neg hne, hc]⟩
      · rw [if_neg hfull] at hroom
        cases hroom
        exact h
  | registration pairing deviceId state =>
    simp only [Ceremonies.makeRoom] at hroom
    split at hroom
    · cases hroom
    · cases hroom
      exact h
  | elevation session scope state =>
    simp only [Ceremonies.makeRoom] at hroom
    split at hroom
    · cases hroom
    · cases hroom
      exact h.retain hs hdistinct session

theorem InStep.file (h : s.InStep) (c : Ceremony) : (s.file c).InStep := by
  intro k hk
  by_cases hkc : k = c.kind.state
  · exact contains_eq_true.2 ⟨c, by simp [Ceremonies.file, hkc]⟩
  · have hk' : k ∈ s.loginOrder := by
      simp only [Ceremonies.file] at hk
      split at hk
      · rcases mem_append.1 hk with hk | hk
        · exact hk
        · exact absurd (mem_singleton.1 hk) hkc
      · exact hk
    obtain ⟨e, he⟩ := contains_eq_true.1 (h k hk')
    exact contains_eq_true.2 ⟨e, by simp [Ceremonies.file, get_insert, hkc, he]⟩

theorem inStep_insert (h : Sound maxDevices l s) (hdistinct : (challenges l).Nodup) (c : Ceremony) (now : Timestamp) :
    (s.next ⟨.insert c, now⟩).InStep := by
  have hp := h.fewer (fewer_purge s now) rfl rfl
  have hin := inStep_purge s now
  rcases insert_cases s c now h.length with ⟨hfiled, -⟩ | ⟨-, r, hroom, -, -, hnext⟩
  · simp only [filed, next, Ceremonies.insert] at hfiled ⊢
    cases hroom : (s.purge now).makeRoom c.kind with
    | ok r => simp [hroom, Except.toOption] at hfiled
    | error e =>
      cases hkind : c.kind with
      | elevation session scope state => exact hin.retain hp hdistinct session
      | login _ | registration _ _ _ => exact hin
  · rw [hnext]
    exact (hin.makeRoom hp hdistinct hroom).file c

theorem eq_filter_of_sublist {α : Type} {xs ys : List α} {p : α → Bool} (h : xs.Sublist ys) (hnodup : ys.Nodup)
    (hp : ∀ x ∈ ys, p x = true ↔ x ∈ xs) : xs = ys.filter p := by
  have hsub : xs.Sublist (ys.filter p) := by
    have := h.filter p
    rwa [filter_eq_self.2 fun x hx => (hp x (h.subset hx)).2 hx] at this
  refine hsub.eq_of_length_le (subperm_of_subset (hnodup.filter p) fun x hx => ?_).length_le
  obtain ⟨hy, hx⟩ := mem_filter.1 hx
  exact (hp x hy).1 hx

/-- **The order lists the held logins, oldest first.** -/
theorem Sound.order_eq (h : Sound maxDevices l s) (hdistinct : (challenges l).Nodup) (hin : s.InStep) :
    s.loginOrder = (logins l).filter s.holdsLogin := by
  refine eq_filter_of_sublist h.order (logins_nodup hdistinct) fun k _ => ⟨fun hk => ?_, fun hk => ?_⟩
  · obtain ⟨c, hc, hlogin⟩ := (Option.any_eq_true _ _).1 hk
    exact h.ordered k c hc hlogin
  · obtain ⟨c, hc⟩ := contains_eq_true.1 (hin k hk)
    simp [holdsLogin, hc, h.isLogin hdistinct hk hc]

theorem Sound.count_logins (h : Sound maxDevices l s) : s.entries.count (fun _ c => c.kind.isLogin) ≤ LOGIN_LIMIT := by
  have hkeys := nodup_filter s.entries.nodup (fun e => e.2.kind.isLogin)
  have hsub : ∀ k ∈ (s.entries.entries.filter (fun e => e.2.kind.isLogin)).map Prod.fst, k ∈ s.loginOrder := by
    intro k hk
    obtain ⟨⟨k, c⟩, he, rfl⟩ := mem_map.1 hk
    obtain ⟨he, hlogin⟩ := mem_filter.1 he
    exact h.ordered k c (get_eq_some.2 he) hlogin
  have hle := (subperm_of_subset hkeys hsub).length_le
  rw [length_map, ← countP_eq_length_filter] at hle
  exact Nat.le_trans hle h.length

/-! ## What insertions and takes leave alone -/

/-- **A login displaces no other ceremony that is still good.** -/
theorem Sound.apart (h : Sound maxDevices l s) (hdistinct : (challenges l).Nodup)
    (hfresh : c.kind.state ∉ challenges l) (hc : c.kind.isLogin = true) {e : Ceremony}
    (hget : s.entries.get k = some e) (huntil : now < e.until) (he : e.kind.isLogin = false) :
    (s.next ⟨.insert c, now⟩).entries.get k = some e := by
  have hp := h.fewer (fewer_purge s now) rfl rfl
  have hget' : (s.purge now).entries.get k = some e := get_purge.2 ⟨hget, huntil⟩
  have hne : k ≠ c.kind.state := by
    intro hk
    obtain ⟨hstate, hmem⟩ := h.keyed k e hget
    exact hfresh ((inserted_sublist l).subset (mem_map.2 ⟨e, hmem, hstate.trans hk⟩))
  have hroom : ∀ r, (s.purge now).makeRoom c.kind = .ok r → r.entries.get k = some e := by
    intro r hr
    cases hkind : c.kind with
    | registration _ _ _ | elevation _ _ _ => rw [hkind] at hc; cases hc
    | login state =>
      rw [hkind, makeRoom] at hr
      cases horder : (s.purge now).loginOrder with
      | nil =>
        rw [horder] at hr
        cases hr
        exact hget'
      | cons oldest rest =>
        rw [horder] at hr
        simp only at hr
        by_cases hfull : rest.length + 1 ≥ LOGIN_LIMIT
        · rw [if_pos hfull] at hr
          cases hr
          have hold : k ≠ oldest := by
            rintro rfl
            have := hp.isLogin hdistinct (by rw [horder]; exact mem_cons_self) hget'
            rw [he] at this
            cases this
          rw [get_erase, if_neg hold, hget']
        · rw [if_neg hfull] at hr
          cases hr
          exact hget'
  rcases insert_cases s c now h.length with ⟨hfiled, -⟩ | ⟨-, r, hr, -, -, hnext⟩
  · simp only [filed, Ceremonies.insert] at hfiled
    cases hr : (s.purge now).makeRoom c.kind with
    | ok r => simp [hr, Except.toOption] at hfiled
    | error error =>
      cases hkind : c.kind with
      | registration _ _ _ | elevation _ _ _ => rw [hkind] at hc; cases hc
      | login state =>
        rw [hkind, makeRoom] at hr
        split at hr
        · cases hr
        · split at hr <;> cases hr
  · rw [hnext]
    simp [Ceremonies.file, get_insert, hne, hroom r hr]

/-- **What holds of a run of calls.** -/
structure Conduct (maxDevices : Nat) (l : History) (s : Ceremonies) : Prop where
  logins : s.entries.count (fun _ c => c.kind.isLogin) ≤ LOGIN_LIMIT
  registrations : s.entries.count (fun _ c => c.kind.pairingId.isSome) ≤ REGISTRATION_LIMIT
  elevations : s.entries.count (fun _ c => c.kind.elevationSession.isSome) ≤ 4 * maxDevices
  pairings : ∀ k k' c c' pairingId, s.entries.get k = some c → s.entries.get k' = some c' →
    c.kind.pairingId = some pairingId → c'.kind.pairingId = some pairingId → k = k'
  sessions : ∀ k k' c c' session, s.entries.get k = some c → s.entries.get k' = some c' →
    c.kind.elevationSession = some session → c'.kind.elevationSession = some session → k = k'
  /-- After an insertion the order lists the held logins. -/
  order : ∀ past x later c, l = past ++ x :: later → x.label.op = .insert c →
    x.dst.loginOrder = (Ceremonies.logins (past ++ [x])).filter x.dst.holdsLogin
  /-- A login leaves the other pools alone. -/
  apart : ∀ x ∈ l, ∀ c, x.label.op = .insert c → c.kind.isLogin = true → ∀ k e, x.src.entries.get k = some e →
    x.label.now < e.until → e.kind.isLogin = false → x.dst.entries.get k = some e
  once : ((taken l).map (·.kind.state)).Nodup
  /-- What is handed out was inserted, is not over, and is what was asked for. -/
  handed : ∀ past (x : Transition Ceremonies Call) later c, l = past ++ x :: later → x.src.took x.label = some c →
    c ∈ inserted past ∧ x.label.now < c.until ∧ Asks x.label.op c.kind
  /-- A take that is refused drops only what was over. -/
  refused : ∀ x ∈ l, x.label.op.isTake = true → x.src.took x.label = none → ∀ k e, x.src.entries.get k = some e →
    x.label.now < e.until → x.dst.entries.get k = some e

theorem isTake_of_took (h : s.took call = some c) : call.op.isTake = true := by
  rcases call with ⟨op, now⟩
  cases op <;> first | rfl | cases h

/-- **The challenges under way, in every run.** -/
theorem ceremonies_conduct (h : Run maxDevices l s) (hdistinct : (challenges l).Nodup) : Conduct maxDevices l s := by
  have hs := sound_run h hdistinct
  -- the run so far, at a transition
  have past_sound : ∀ {past x later}, l = past ++ x :: later → x.dst = x.src.next x.label ∧
      (challenges past).Nodup ∧ (challenges (past ++ [x])).Nodup ∧ Sound maxDevices past x.src ∧
        Sound maxDevices (past ++ [x]) x.dst := by
    intro past x later hl
    obtain ⟨hpast, hstep⟩ := h.split hl
    have hall : (challenges (past ++ [x])).Nodup := by
      rw [hl, append_cons, challenges, filterMap_append] at hdistinct
      exact hdistinct.sublist (sublist_append_left ..)
    have hshort : (challenges past).Nodup := by
      rw [challenges_snoc] at hall
      exact hall.sublist (sublist_append_left ..)
    exact ⟨hstep, hshort, hall, sound_run hpast hshort, sound_run (hpast.snoc hstep) hall⟩
  exact {
    logins := hs.count_logins
    registrations := hs.registrations
    elevations := by
      rw [Nat.mul_comm, ← hs.limit]
      exact hs.elevations
    pairings := hs.pairings
    sessions := hs.sessions
    order := by
      intro past x later c hl hop
      obtain ⟨hstep, hshort, hall, hsrc, hdst⟩ := past_sound hl
      refine hdst.order_eq hall ?_
      have := inStep_insert hsrc hshort c x.label.now
      rwa [← hop, ← hstep] at this
    apart := by
      intro x hx c hop hc k e hget huntil he
      obtain ⟨past, later, hl⟩ := append_of_mem hx
      obtain ⟨hstep, hshort, hall, hsrc, -⟩ := past_sound hl
      have hfresh : c.kind.state ∉ challenges past := by
        intro hmem
        rw [challenges_snoc, hop] at hall
        exact (nodup_append.1 hall).2.2 _ hmem _ (mem_singleton_self _) rfl
      have := hsrc.apart hshort hfresh hc hget huntil he
      rwa [← hop, ← hstep] at this
    once := hs.once
    handed := by
      intro past x later c hl htook
      obtain ⟨-, -, -, hsrc, -⟩ := past_sound hl
      rcases take_cases (isTake_of_took htook) fun k c hc => (hsrc.keyed k c hc).1 with
        ⟨hnone, -⟩ | ⟨c', hsome, hget, hasks, -⟩
      · rw [htook] at hnone
        cases hnone
      · cases htook.symm.trans hsome
        obtain ⟨hget, huntil⟩ := get_purge.1 hget
        exact ⟨(hsrc.keyed _ _ hget).2, huntil, hasks⟩
    refused := by
      intro x hx htake htook k e hget huntil
      obtain ⟨past, later, hl⟩ := append_of_mem hx
      obtain ⟨hstep, -, -, hsrc, -⟩ := past_sound hl
      rcases take_cases htake fun k c hc => (hsrc.keyed k c hc).1 with ⟨-, hnext⟩ | ⟨c', hsome, -, -, -⟩
      · rw [hstep, hnext]
        exact get_purge.2 ⟨hget, huntil⟩
      · rw [htook] at hsome
        cases hsome }

/-- A login is inserted and taken. -/
theorem ceremonies_conduct_login : let put : Call := ⟨.insert ⟨60, .login 7⟩, 0⟩
    let take : Call := ⟨.takeAssertion (some 7) none, 1⟩
    Conduct 1 [⟨new 1, put, (new 1).next put⟩, ⟨(new 1).next put, take, ((new 1).next put).next take⟩]
      (((new 1).next put).next take) := by
  have h0 : Run 1 [] (new 1) := .start rfl
  exact ceremonies_conduct ((h0.snoc rfl).snoc rfl) (by decide)

end Ceremonies
end Yuzora
