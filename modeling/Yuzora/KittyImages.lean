import Yuzora.KittyGraphics
import Yuzora.Trace
/-!
# KittyImages — the graphics over whole runs

Every command is made of a few moves: an image stored, a placement set, placements or images dropped.  A stored image that
replaces a larger one may leave placements outside of it, and a placement whose cursor movement is refused stays although
the command fails; in every run without these two the bounds hold, and an error changes nothing (`graphics_conduct`).
-/
namespace Yuzora

namespace Table
variable {K V : Type} [DecidableEq K]

theorem values_perm (t : Table K V) (k : K) : t.values.Perm ((t.get k).toList ++ (t.erase k).values) := by
  cases hg : t.get k with
  | none =>
    rw [values, values, erase_entries_of_get_none hg]
    exact List.Perm.refl _
  | some v =>
    have hnodup : t.entries.Nodup := t.nodup.of_map _
    have hperm : t.entries.Perm ((k, v) :: (t.erase k).entries) := by
      refine (List.perm_ext_iff_of_nodup hnodup
        (List.nodup_cons.2 ⟨fun h => ?_, (t.erase k).nodup.of_map _⟩)).2 fun e => ?_
      · have := get_eq_some.2 h
        rw [get_erase_self] at this
        cases this
      · obtain ⟨j, w⟩ := e
        rw [List.mem_cons, ← get_eq_some, ← get_eq_some, get_erase]
        by_cases hj : j = k
        · subst hj
          rw [hg, if_pos rfl]
          simp [eq_comm]
        · rw [if_neg hj]
          simp [hj]
    exact hperm.map Prod.snd

theorem mem_values {t : Table K V} {v : V} : v ∈ t.values ↔ ∃ k, t.get k = some v := by
  rw [values, List.mem_map]
  constructor
  · rintro ⟨⟨k, w⟩, hmem, rfl⟩
    exact ⟨k, get_eq_some.2 hmem⟩
  · rintro ⟨k, hk⟩
    exact ⟨(k, v), get_eq_some.1 hk, rfl⟩

end Table

namespace Kitty
namespace KittyGraphics

open List Table
open Utf16 (Text)

variable {s t r : KittyGraphics} {target : GraphicsTarget} {control : Control} {payload action : Text}
  {image : KittyImage} {placement : KittyPlacement} {message : String} {id width height : Int} {after : KittyGraphics}
  {command : Command} {imageId : Int}

/-! ## The invariant -/

/-- Images and placements, and what became of every image. -/
structure Sound (s : KittyGraphics) : Prop where
  memory : (s.images.values.map imageBytes).sum ≤ MAX_KITTY_BYTES
  images : s.images.size ≤ 128
  placements : s.placements.size ≤ 512
  inside : ∀ key placement, s.placements.get key = some placement → placement.imageId = key.1 ∧
    ∃ image, s.images.get placement.imageId = some image ∧ Inside placement image.width image.height
  /-- A loaded image is stored or was disposed of, once. -/
  once : ∀ n, (s.images.values.map (·.image)).count n + s.disposals.count n = if n < s.loads then 1 else 0

/-- The invariant, with what the next command relies on. -/
structure Good (s : KittyGraphics) : Prop extends Sound s where
  sizes : ∀ image ∈ s.images.values, 1 ≤ image.width ∧ 1 ≤ image.height

theorem good_new : Good new where
  memory := by decide
  images := by decide
  placements := by decide
  inside := fun _ _ h => nomatch h
  once := fun _ => rfl
  sizes := fun _ h => nomatch h

/-- The same images and placements. -/
structure Same (s t : KittyGraphics) : Prop where
  images : t.images = s.images
  placements : t.placements = s.placements
  loads : t.loads = s.loads
  disposals : t.disposals = s.disposals

theorem Same.refl (s : KittyGraphics) : Same s s := ⟨rfl, rfl, rfl, rfl⟩

theorem Same.trans (h : Same s t) (h' : Same t r) : Same s r :=
  ⟨h'.images.trans h.images, h'.placements.trans h.placements, h'.loads.trans h.loads, h'.disposals.trans h.disposals⟩

theorem Good.same (h : Good s) (hs : Same s t) : Good t := by
  obtain ⟨h1, h2, h3, h4⟩ := hs
  refine ⟨⟨?_, ?_, ?_, ?_, ?_⟩, ?_⟩
  · rw [h1]
    exact h.memory
  · rw [h1]
    exact h.images
  · rw [h2]
    exact h.placements
  · rw [h1, h2]
    exact h.inside
  · rw [h1, h3, h4]
    exact h.once
  · rw [h1]
    exact h.sizes

theorem same_fail (s : KittyGraphics) (message : String) : Same s (s.fail message).2 := ⟨rfl, rfl, rfl, rfl⟩

theorem same_numbered (s : KittyGraphics) (client : Int) : Same s (s.numbered client).2 := by
  rw [numbered]
  by_cases h : client ≠ 0
  · rw [if_pos h]
    exact .refl s
  · rw [if_neg h]
    exact ⟨rfl, rfl, rfl, rfl⟩

theorem imageBytes_nonneg (h : 1 ≤ image.width ∧ 1 ≤ image.height) : 0 ≤ imageBytes image := by
  have := mul_nonneg (show 0 ≤ image.width by omega) (show 0 ≤ image.height by omega)
  rw [imageBytes]
  omega

theorem sum_nonneg {images : List KittyImage} (h : ∀ image ∈ images, 1 ≤ image.width ∧ 1 ≤ image.height) :
    0 ≤ (images.map imageBytes).sum := by
  induction images with
  | nil => exact Int.le_refl _
  | cons image images ih =>
    have h1 := imageBytes_nonneg (h image mem_cons_self)
    have h2 := ih fun other hmem => h other (mem_cons_of_mem _ hmem)
    rw [map_cons, sum_cons]
    omega

theorem memoryBut_le (h : Good s) (id : Int) : s.memoryBut id ≤ (s.images.values.map imageBytes).sum := by
  have hperm := (s.images.values_perm id).map imageBytes
  rw [hperm.sum_eq, map_append, sum_append, memoryBut]
  have : 0 ≤ ((s.images.get id).toList.map imageBytes).sum := sum_nonneg fun image hmem =>
    h.sizes image (mem_values.2 ⟨id, Option.mem_toList.1 hmem⟩)
  omega

theorem mem_erase_values {id : Int} (h : image ∈ (s.images.erase id).values) : image ∈ s.images.values := by
  obtain ⟨k, hk⟩ := mem_values.1 h
  rw [get_erase] at hk
  by_cases hid : k = id
  · rw [if_pos hid] at hk
    cases hk
  · rw [if_neg hid] at hk
    exact mem_values.2 ⟨k, hk⟩

/-! ## The moves -/

theorem once_setImage (h : Good s) (id width height : Int) (n : Nat) :
    ((s.setImage id width height).images.values.map (·.image)).count n + (s.setImage id width height).disposals.count n =
      if n < s.loads + 1 then 1 else 0 := by
  have hperm := ((s.images.values_perm id).map (·.image)).count_eq n
  have honce := h.once n
  rw [map_append, count_append] at hperm
  show ((s.loads :: (s.images.erase id).values.map (·.image)).count n) +
    (s.disposals ++ (s.images.get id).toList.map (·.image)).count n = _
  rw [count_cons, count_append]
  by_cases hn : s.loads = n
  · subst hn
    simp only [lt_irrefl, if_false] at honce
    simp only [beq_self_eq_true, if_true, Nat.lt_succ_self]
    omega
  · have hiff : n < s.loads + 1 ↔ n < s.loads := by omega
    have hbeq : ¬ (s.loads == n) = true := by simpa using hn
    rw [if_neg hbeq]
    simp only [hiff]
    omega

/-- **An image is stored**, in place of one with its number, when the placements of that one fit. -/
theorem good_setImage (h : Good s) (hw : 1 ≤ width) (hh : 1 ≤ height)
    (hmemory : width * height * 4 + s.memoryBut id ≤ MAX_KITTY_BYTES)
    (hroom : s.images.contains id = true ∨ s.images.size < 128)
    (hfits : ∀ key placement, s.placements.get key = some placement → placement.imageId = id →
      Inside placement width height) : Good (s.setImage id width height) where
  memory := by
    exact hmemory
  images := by
    show (s.images.insert id _).size ≤ 128
    rcases hroom with hin | hlt
    · obtain ⟨image, himage⟩ := contains_eq_true.1 hin
      rw [size_insert_of_get _ himage]
      exact h.images
    · exact (size_insert_le ..).trans hlt
  placements := h.placements
  inside := fun key placement hp => by
    obtain ⟨hkey, image, himage, hinside⟩ := h.inside key placement hp
    refine ⟨hkey, ?_⟩
    show ∃ image, (s.images.insert id ⟨s.loads, width, height⟩).get placement.imageId = some image ∧ _
    rw [get_insert]
    by_cases hid : placement.imageId = id
    · rw [if_pos hid]
      exact ⟨_, rfl, hfits key placement hp hid⟩
    · rw [if_neg hid]
      exact ⟨image, himage, hinside⟩
  once := once_setImage h id width height
  sizes := fun image hmem => by
    have hmem' : image ∈ (s.images.insert id ⟨s.loads, width, height⟩).values := hmem
    rcases List.mem_cons.1 hmem' with rfl | hold
    · exact ⟨hw, hh⟩
    · exact h.sizes image (mem_erase_values hold)

/-- **A placement is set** inside its image. -/
theorem good_place (h : Good s) (himage : s.images.get imageId = some image) (hid : placement.imageId = imageId)
    (hinside : Inside placement image.width image.height)
    (hroom : s.placements.contains (imageId, id) = true ∨ s.placements.size < 512) :
    Good { s with placements := s.placements.insert (imageId, id) placement } where
  memory := h.memory
  images := h.images
  placements := by
    rcases hroom with hin | hlt
    · obtain ⟨old, hold⟩ := contains_eq_true.1 hin
      rw [size_insert_of_get _ hold]
      exact h.placements
    · exact (size_insert_le ..).trans hlt
  inside := fun key placement' hp => by
    have hp' : (s.placements.insert (imageId, id) placement).get key = some placement' := hp
    rw [get_insert] at hp'
    by_cases hkey : key = (imageId, id)
    · rw [if_pos hkey] at hp'
      cases hp'
      rw [hkey, hid]
      exact ⟨rfl, image, himage, hinside⟩
    · rw [if_neg hkey] at hp'
      exact h.inside key placement' hp'
  once := h.once
  sizes := h.sizes

theorem size_retain_le {K V : Type} (table : Table K V) (p : K → V → Bool) : (table.retain p).size ≤ table.size :=
  length_filter_le ..

theorem good_retain (h : Good s) (p : Int × Int → KittyPlacement → Bool) :
    Good { s with placements := s.placements.retain p } where
  memory := h.memory
  images := h.images
  placements := (size_retain_le ..).trans h.placements
  inside := fun key placement hp => by
    have hp' : (s.placements.retain p).get key = some placement := hp
    rw [get_retain, Option.filter_eq_some_iff] at hp'
    exact h.inside key placement hp'.1
  once := h.once
  sizes := h.sizes

theorem good_dropImage (h : Good s)
    (hfree : ∀ key placement, s.placements.get key = some placement → placement.imageId ≠ imageId) :
    Good (s.dropImage imageId) where
  memory := (memoryBut_le h imageId).trans h.memory
  images := (size_erase_le ..).trans h.images
  placements := h.placements
  inside := fun key placement hp => by
    obtain ⟨hkey, image, himage, hinside⟩ := h.inside key placement hp
    refine ⟨hkey, image, ?_, hinside⟩
    show (s.images.erase imageId).get placement.imageId = some image
    rw [get_erase, if_neg (hfree key placement hp)]
    exact himage
  once := fun n => by
    have hperm := ((s.images.values_perm imageId).map (·.image)).count_eq n
    have honce := h.once n
    rw [map_append, count_append] at hperm
    show ((s.images.erase imageId).values.map (·.image)).count n +
      (s.disposals ++ (s.images.get imageId).toList.map (·.image)).count n = _
    rw [count_append]
    show _ = if n < s.loads then 1 else 0
    omega
  sizes := fun image hmem => h.sizes image (mem_erase_values hmem)

theorem good_clearImages (h : Good s) (hfree : ∀ key, s.placements.get key = none) : Good s.clearImages where
  memory := by
    show (([] : List KittyImage).map imageBytes).sum ≤ (MAX_KITTY_BYTES : Int)
    decide
  images := Nat.zero_le _
  placements := h.placements
  inside := fun key placement hp => by
    have hp' : s.placements.get key = some placement := hp
    rw [hfree key] at hp'
    cases hp'
  once := fun n => by
    show 0 + (s.disposals ++ s.images.values.map (·.image)).count n = if n < s.loads then 1 else 0
    rw [count_append, ← h.once n]
    omega
  sizes := nofun

/-! ## The commands -/

theorem bind_eq_ok {E A B : Type} {x : Except E A} {f : A → Except E B} {b : B} (h : x.bind f = .ok b) :
    ∃ a, x = .ok a ∧ f a = .ok b := by
  cases x with
  | error => cases h
  | ok a => exact ⟨a, rfl, h⟩

theorem readPicture_size {encoded : Text} {picture : Picture} (h : readPicture target control encoded = .ok picture) :
    1 ≤ picture.width ∧ 1 ≤ picture.height := by
  obtain ⟨bytes, -, h⟩ := bind_eq_ok h
  obtain ⟨format, -, h⟩ := bind_eq_ok h
  obtain ⟨width, -, h⟩ := bind_eq_ok h
  obtain ⟨height, -, h⟩ := bind_eq_ok h
  obtain ⟨size, -, h⟩ := bind_eq_ok h
  rw [checkSize] at h
  by_cases hlimit : size.1 < 1 ∨ size.2 < 1 ∨ size.1 > 8192 ∨ size.2 > 8192 ∨ size.1 * size.2 * 4 > MAX_KITTY_BYTES
  · rw [if_pos hlimit] at h
    cases h
  · rw [if_neg hlimit] at h
    cases h
    show 1 ≤ size.1 ∧ 1 ≤ size.2
    omega

def Faithful (target : GraphicsTarget) : Prop :=
  ∀ bytes width height format size, target.load bytes width height format = .ok size → size = (width, height)

theorem prepare_image (hfaithful : Faithful target) {header : Control}
    (h : s.prepare target action control payload = .image id header width height after) :
    Same s after ∧ 1 ≤ width ∧ 1 ≤ height ∧ width * height * 4 + s.memoryBut id ≤ MAX_KITTY_BYTES ∧
      (s.images.contains id = true ∨ s.images.size < 128) := by
  rw [prepare] at h
  cases hreceived : s.receive control payload with
  | failed | waiting => simp [hreceived] at h
  | complete control' encoded =>
    cases hpicture : readPicture target control' encoded with
    | error => simp [hreceived, hpicture] at h
    | ok picture =>
      simp only [hreceived, hpicture] at h
      by_cases hquery : action = [113]
      · rw [if_pos hquery] at h
        cases h
      rw [if_neg hquery] at h
      cases hclient : clientId (field control' 'i') with
      | error => simp [hclient] at h
      | ok client =>
        simp only [hclient] at h
        by_cases hfull : picture.width * picture.height * 4 + s.memoryBut (s.numbered client).1 > MAX_KITTY_BYTES ∨
            (s.images.contains (s.numbered client).1 = false ∧ s.images.size ≥ 128)
        · rw [if_pos hfull] at h
          cases h
        rw [if_neg hfull] at h
        cases hload : target.load picture.bytes picture.width picture.height picture.format with
        | error => simp [hload] at h
        | ok size =>
          obtain ⟨w, g⟩ := size
          simp only [hload] at h
          cases h
          cases hfaithful _ _ _ _ _ hload
          obtain ⟨hw, hh⟩ := readPicture_size hpicture
          refine ⟨same_numbered s client, hw, hh, by omega, ?_⟩
          by_cases hin : s.images.contains (s.numbered client).1 = true
          · exact .inl hin
          · rw [Bool.not_eq_true] at hin
            exact .inr (by by_contra hlt; exact hfull (.inr ⟨hin, by omega⟩))

theorem prepare_failed (h : s.prepare target action control payload = .failed message after) : Same s after := by
  rw [prepare] at h
  cases hreceived : s.receive control payload with
  | failed =>
    simp only [hreceived] at h
    cases h
    exact .refl s
  | waiting => simp [hreceived] at h
  | complete control' encoded =>
    simp only [hreceived] at h
    cases hpicture : readPicture target control' encoded with
    | error =>
      simp only [hpicture] at h
      cases h
      exact .refl s
    | ok picture =>
      simp only [hpicture] at h
      by_cases hquery : action = [113]
      · rw [if_pos hquery] at h
        cases h
      rw [if_neg hquery] at h
      cases hclient : clientId (field control' 'i') with
      | error =>
        simp only [hclient] at h
        cases h
        exact .refl s
      | ok client =>
        simp only [hclient] at h
        by_cases hfull : picture.width * picture.height * 4 + s.memoryBut (s.numbered client).1 > MAX_KITTY_BYTES ∨
            (s.images.contains (s.numbered client).1 = false ∧ s.images.size ≥ 128)
        · rw [if_pos hfull] at h
          cases h
          exact same_numbered s client
        rw [if_neg hfull] at h
        cases hload : target.load picture.bytes picture.width picture.height picture.format with
        | error =>
          simp only [hload] at h
          cases h
          exact same_numbered s client
        | ok size => simp [hload] at h

/-- What `place` does: nothing, or a placement inside a stored image. -/
inductive Placing (s : KittyGraphics) : Except String KittyPlacement × KittyGraphics → Prop
  | refused {message : String} {t : KittyGraphics} (h : Same s t) : Placing s (.error message, t)
  | set {placement : KittyPlacement} {image : KittyImage} {imageId id : Int} {t : KittyGraphics}
      (himage : s.images.get imageId = some image) (hid : placement.imageId = imageId)
      (hinside : Inside placement image.width image.height)
      (hroom : s.placements.contains (imageId, id) = true ∨ s.placements.size < 512)
      (h : Same { s with placements := s.placements.insert (imageId, id) placement } t) : Placing s (.ok placement, t)

theorem readPlacement_imageId
    (h : readPlacement target imageId id image control = .ok placement) : placement.imageId = imageId := by
  obtain ⟨_, -, h⟩ := bind_eq_ok h
  obtain ⟨_, -, h⟩ := bind_eq_ok h
  obtain ⟨_, -, h⟩ := bind_eq_ok h
  obtain ⟨_, -, h⟩ := bind_eq_ok h
  obtain ⟨_, -, h⟩ := bind_eq_ok h
  obtain ⟨_, -, h⟩ := bind_eq_ok h
  obtain ⟨_, -, h⟩ := bind_eq_ok h
  obtain ⟨_, -, h⟩ := bind_eq_ok h
  obtain ⟨_, -, h⟩ := bind_eq_ok h
  cases h
  rfl

theorem inside_of_valid (h : isInvalid placement image = false) : Inside placement image.width image.height := by
  have := of_decide_eq_false h
  exact ⟨by omega, by omega, by omega, by omega, by omega, by omega⟩

theorem place_spec (s : KittyGraphics) (target : GraphicsTarget) (imageId : Int) (control : Control) :
    Placing s (s.place target imageId control) := by
  rw [place]
  cases himage : s.images.get imageId with
  | none => exact .refused (.refl s)
  | some image =>
    cases hclient : clientId (field control 'p') with
    | error => exact .refused (.refl s)
    | ok client =>
      cases hread : readPlacement target imageId (s.numbered client).1 image control with
      | error =>
        simp only [hread]
        exact .refused (same_numbered s client)
      | ok placement =>
        simp only [hread]
        by_cases hinvalid : isInvalid placement image = true
        · rw [if_pos hinvalid]
          exact .refused (same_numbered s client)
        rw [if_neg hinvalid]
        by_cases hfull : s.placements.size ≥ 512 ∧ s.placements.contains (imageId, (s.numbered client).1) = false
        · rw [if_pos hfull]
          exact .refused (same_numbered s client)
        · rw [if_neg hfull]
          obtain ⟨h1, -, h3, h4⟩ := same_numbered s client
          refine .set himage (readPlacement_imageId hread) (inside_of_valid (Bool.not_eq_true _ ▸ hinvalid)) ?_
            ⟨h1, rfl, h3, h4⟩
          by_cases hin : s.placements.contains (imageId, (s.numbered client).1) = true
          · exact .inl hin
          · rw [Bool.not_eq_true] at hin
            exact .inr (by by_contra hlt; exact hfull ⟨by omega, hin⟩)

theorem good_placing (h : Good s) {out : Except String KittyPlacement × KittyGraphics} (hout : Placing s out) :
    Good out.2 := by
  cases hout with
  | refused hsame => exact h.same hsame
  | set himage hid hinside hroom hsame => exact (good_place h himage hid hinside hroom).same hsame

/-- **Setting a placement keeps the invariant**, whatever the cursor does. -/
theorem good_acceptPlacement (h : Good s) (target : GraphicsTarget) (imageId : Int) (control : Control) :
    Good (s.acceptPlacement target imageId control).2 := by
  have hgood := good_placing h (place_spec s target imageId control)
  rw [acceptPlacement]
  rcases hplace : s.place target imageId control with ⟨result, after⟩
  rw [hplace] at hgood
  cases result with
  | error message => exact hgood.same (same_fail after message)
  | ok placement =>
    cases hadvance : advance target placement control with
    | error message =>
      simp only [hadvance]
      exact hgood.same (same_fail after message)
    | ok =>
      simp only [hadvance]
      exact hgood

/-- **Deleting keeps the invariant.** -/
theorem good_acceptDeletion (h : Good s) (control : Control) : Good (s.acceptDeletion control).2 := by
  rw [acceptDeletion]
  cases hi : integer (field control 'i') 0 with
  | error message => exact h.same (same_fail s message)
  | ok imageId =>
    cases hp : integer (field control 'p') 0 with
    | error message => exact h.same (same_fail s message)
    | ok placementId =>
      simp only
      generalize (field control 'd').getD [97] = mode
      by_cases hmode : ¬ (mode = [97] ∨ mode = [65] ∨ mode = [105] ∨ mode = [73])
      · rw [if_pos hmode]
        exact h.same (same_fail s _)
      rw [if_neg hmode]
      have hkept := good_retain h fun _ placement => !isDeleted mode imageId placementId placement
      by_cases hall : mode = [65]
      · rw [if_pos hall]
        refine good_clearImages hkept fun key => ?_
        rw [get_retain, Option.filter_eq_none_iff]
        intro placement _
        simp [isDeleted, hall]
      rw [if_neg hall]
      by_cases hdrop : mode = [73] ∧ (s.placements.retain fun _ placement =>
          !isDeleted mode imageId placementId placement).values.any (fun placement => placement.imageId == imageId) = false
      · rw [if_pos hdrop]
        refine good_dropImage hkept fun key placement hget heq => ?_
        have hany := any_eq_false.1 hdrop.2 placement (mem_values.2 ⟨key, hget⟩)
        exact hany (beq_iff_eq.2 heq)
      · rw [if_neg hdrop]
        exact hkept

/-! ## Runs -/

inductive Command
  | accept (target : GraphicsTarget) (control : Control) (payload : Text)
  | clear
  | dispose

def answerTo (s : KittyGraphics) : Command → Option Answer
  | .accept target control payload => (s.accept target control payload).1
  | .clear | .dispose => none

def next (s : KittyGraphics) : Command → KittyGraphics
  | .accept target control payload => (s.accept target control payload).2
  | .clear => s.clear
  | .dispose => s.dispose

def isUpload (action : Text) : Bool := decide (action = [116] ∨ action = [84] ∨ action = [113])

/-- The placements of a number that a new image gets fit into it. -/
def Fits (s : KittyGraphics) (target : GraphicsTarget) (control : Control) (payload : Text) : Prop :=
  isUpload (s.actionOf control) = true → ∀ id header width height after,
    s.prepare target (s.actionOf control) control payload = .image id header width height after →
    ∀ key placement, s.placements.get key = some placement → placement.imageId = id → Inside placement width height

/-- The placement that a command sets, and the control it is set with. -/
def placing (s : KittyGraphics) (target : GraphicsTarget) (control : Control) (payload : Text) :
    Option (KittyPlacement × Control) :=
  if isUpload (s.actionOf control) then
    match s.prepare target (s.actionOf control) control payload with
    | .image id header width height after =>
      if s.actionOf control = [84] then
        ((after.setImage id width height).place target id header).1.toOption.map (·, header)
      else none
    | _ => none
  else if s.actionOf control = [112] then
    (integer (field control 'i') 0).toOption.bind fun imageId =>
      (s.place target imageId control).1.toOption.map (·, control)
  else none

def Advances (s : KittyGraphics) (target : GraphicsTarget) (control : Control) (payload : Text) : Prop :=
  ∀ placement header, s.placing target control payload = some (placement, header) →
    advance target placement header = .ok ()

/-- **The condition** on a command. -/
def Safe (s : KittyGraphics) : Command → Prop
  | .accept target control payload =>
    Faithful target ∧ (s.disposed = false → s.Fits target control payload ∧ s.Advances target control payload)
  | .clear | .dispose => True

/-- After an error images and placements are as before, but for the image of an upload that was to be placed. -/
def KeepsOnError (s : KittyGraphics) (command : Command) (t : KittyGraphics) : Prop :=
  ∀ message, s.answerTo command = some (.error message) → t.placements = s.placements ∧
    (t.images = s.images ∨ ∃ target control payload id width height, command = .accept target control payload ∧
      s.actionOf control = [84] ∧ t.images = s.images.insert id ⟨s.loads, width, height⟩)

theorem good_acceptUpload (h : Good s) (hfaithful : Faithful target) (hfits : ∀ id header width height after,
      s.prepare target action control payload = .image id header width height after →
      ∀ key placement, s.placements.get key = some placement → placement.imageId = id → Inside placement width height) :
    Good (s.acceptUpload target action control payload).2 := by
  rw [acceptUpload]
  cases hprepare : s.prepare target action control payload with
  | failed message after => exact (h.same (prepare_failed hprepare)).same (same_fail after message)
  | waiting | query => exact h.same ⟨rfl, rfl, rfl, rfl⟩
  | image id header width height after =>
    obtain ⟨hsame, hw, hh, hmemory, hroom⟩ := prepare_image hfaithful hprepare
    have hafter : Good (after.setImage id width height) := by
      refine good_setImage (h.same hsame) hw hh ?_ ?_ ?_
      · rw [memoryBut, hsame.images]
        exact hmemory
      · rw [hsame.images]
        exact hroom
      · rw [hsame.placements]
        exact hfits id header width height after hprepare
    simp only
    by_cases hplaced : action = [84]
    · rw [if_pos hplaced]
      exact good_acceptPlacement hafter target id header
    · rw [if_neg hplaced]
      exact hafter

theorem good_clear (h : Good s) : Good s.clear := by
  have hempty : Good { s with upload := none, placements := Table.empty } :=
    { h with
      placements := Nat.zero_le _
      inside := fun _ _ hp => nomatch hp }
  exact good_clearImages hempty fun _ => rfl

/-- **A command keeps the invariant**, when what it stores fits. -/
theorem good_next (h : Good s) (hsafe : s.Safe command) : Good (s.next command) := by
  cases command with
  | clear => exact good_clear h
  | dispose => exact good_clear (h.same ⟨rfl, rfl, rfl, rfl⟩)
  | accept target control payload =>
    obtain ⟨hfaithful, hsafe⟩ := hsafe
    show Good (s.accept target control payload).2
    rw [accept]
    by_cases hdisposed : s.disposed = true
    · rw [if_pos hdisposed]
      exact h
    rw [if_neg hdisposed]
    obtain ⟨hfits, -⟩ := hsafe (Bool.not_eq_true _ ▸ hdisposed)
    by_cases hupload : s.actionOf control = [116] ∨ s.actionOf control = [84] ∨ s.actionOf control = [113]
    · rw [if_pos hupload]
      exact good_acceptUpload h hfaithful (hfits (decide_eq_true hupload))
    rw [if_neg hupload]
    by_cases hplace : s.actionOf control = [112]
    · rw [if_pos hplace]
      cases hi : integer (field control 'i') 0 with
      | error message => exact h.same (same_fail s message)
      | ok imageId => exact good_acceptPlacement h target imageId control
    rw [if_neg hplace]
    by_cases hdelete : s.actionOf control = [100]
    · rw [if_pos hdelete]
      exact good_acceptDeletion h control
    · rw [if_neg hdelete]
      exact h.same (same_fail s _)

theorem same_acceptPlacement (hadvance : ∀ placement, (s.place target imageId control).1.toOption = some placement →
      advance target placement control = .ok ())
    (h : (s.acceptPlacement target imageId control).1 = some (.error message)) :
    Same s (s.acceptPlacement target imageId control).2 := by
  have hspec := place_spec s target imageId control
  rw [acceptPlacement] at h ⊢
  rcases hplace : s.place target imageId control with ⟨result, after⟩
  rw [hplace] at hspec hadvance h
  cases hspec with
  | refused hsame => exact hsame.trans (same_fail after _)
  | @set placement image imageId' id _ himage hid hinside hroom hsame =>
    simp only [hadvance placement rfl] at h
    cases h

theorem same_acceptDeletion (h : (s.acceptDeletion control).1 = some (.error message)) :
    Same s (s.acceptDeletion control).2 := by
  rw [acceptDeletion] at h ⊢
  cases hi : integer (field control 'i') 0 with
  | error m => exact same_fail s m
  | ok imageId =>
    cases hp : integer (field control 'p') 0 with
    | error m => exact same_fail s m
    | ok placementId =>
      simp only [hi, hp] at h ⊢
      by_cases hmode : ¬ ((field control 'd').getD [97] = [97] ∨ (field control 'd').getD [97] = [65] ∨
          (field control 'd').getD [97] = [105] ∨ (field control 'd').getD [97] = [73])
      · rw [if_pos hmode]
        exact same_fail s _
      · rw [if_neg hmode] at h
        split at h
        · cases h
        · split at h <;> cases h

/-- **A command that fails keeps what there was**, when the cursor can be moved. -/
theorem keeps_next (hsafe : s.Safe command) : s.KeepsOnError command (s.next command) := by
  intro message h
  cases command with
  | clear | dispose => cases h
  | accept target control payload =>
    obtain ⟨hfaithful, hsafe⟩ := hsafe
    have h : (s.accept target control payload).1 = some (.error message) := h
    show (s.accept target control payload).2.placements = s.placements ∧
      ((s.accept target control payload).2.images = s.images ∨ ∃ target' control' payload' id width height,
        Command.accept target control payload = .accept target' control' payload' ∧ s.actionOf control' = [84] ∧
        (s.accept target control payload).2.images = s.images.insert id ⟨s.loads, width, height⟩)
    rw [accept] at h ⊢
    by_cases hdisposed : s.disposed = true
    · rw [if_pos hdisposed] at h
      cases h
    rw [if_neg hdisposed] at h ⊢
    obtain ⟨-, hadvances⟩ := hsafe (Bool.not_eq_true _ ▸ hdisposed)
    rw [Advances, placing] at hadvances
    by_cases hupload : s.actionOf control = [116] ∨ s.actionOf control = [84] ∨ s.actionOf control = [113]
    · rw [if_pos hupload] at h ⊢
      rw [if_pos (show isUpload _ = true from decide_eq_true hupload)] at hadvances
      rw [acceptUpload] at h ⊢
      cases hprepare : s.prepare target (s.actionOf control) control payload with
      | failed m after =>
        have hsame := (prepare_failed hprepare).trans (same_fail after m)
        exact ⟨hsame.placements, .inl hsame.images⟩
      | waiting | query => exact ⟨rfl, .inl rfl⟩
      | image id header width height after =>
        obtain ⟨hsame, -⟩ := prepare_image hfaithful hprepare
        simp only [hprepare] at h hadvances ⊢
        by_cases hplaced : s.actionOf control = [84]
        · rw [if_pos hplaced] at h ⊢
          rw [if_pos hplaced] at hadvances
          have hkept := same_acceptPlacement (fun placement hp => hadvances placement header (by rw [hp]; rfl)) h
          refine ⟨hkept.placements.trans hsame.placements, .inr ⟨target, control, payload, id, width, height, rfl,
            hplaced, ?_⟩⟩
          rw [hkept.images]
          show after.images.insert id ⟨after.loads, width, height⟩ = _
          rw [hsame.images, hsame.loads]
        · rw [if_neg hplaced] at h
          cases h
    rw [if_neg hupload] at h ⊢
    rw [if_neg (show ¬ isUpload _ = true from fun hu => hupload (of_decide_eq_true hu))] at hadvances
    by_cases hplace : s.actionOf control = [112]
    · rw [if_pos hplace] at h ⊢
      rw [if_pos hplace] at hadvances
      cases hi : integer (field control 'i') 0 with
      | error m => exact ⟨rfl, .inl rfl⟩
      | ok imageId =>
        simp only [hi] at h hadvances ⊢
        have hkept := same_acceptPlacement (fun placement hp => hadvances placement control (by
          show ((s.place target imageId control).1.toOption.map (·, control)) = _
          rw [hp]
          rfl)) h
        exact ⟨hkept.placements, .inl hkept.images⟩
    rw [if_neg hplace] at h ⊢
    by_cases hdelete : s.actionOf control = [100]
    · rw [if_pos hdelete] at h ⊢
      have hkept := same_acceptDeletion h
      exact ⟨hkept.placements, .inl hkept.images⟩
    · rw [if_neg hdelete]
      exact ⟨rfl, .inl rfl⟩

abbrev Run := Trace (fun s => s = new) (fun s (command : Command) t => t = next s command)

/-- **Images and placements over whole runs**: in a run whose commands are all safe, the bounds hold in every state, each
placement lies inside its image, each loaded image is stored or was disposed of once, and an error changes nothing. -/
theorem graphics_conduct {l : List (Transition KittyGraphics Command)} (h : Run l s)
    (hsafe : ∀ x ∈ l, x.src.Safe x.label) :
    Sound s ∧ ∀ x ∈ l, Sound x.src ∧ Sound x.dst ∧ x.src.KeepsOnError x.label x.dst := by
  have hall : Good s ∧ ∀ x ∈ l, Good x.src ∧ Good x.dst ∧ x.src.KeepsOnError x.label x.dst := by
    induction h with
    | start hs =>
      subst hs
      exact ⟨good_new, fun _ hx => nomatch hx⟩
    | @snoc l s t command hl hst ih =>
      subst hst
      obtain ⟨hgood, hpast⟩ := ih fun x hx => hsafe x (mem_append_left _ hx)
      have hlast : s.Safe command := hsafe ⟨s, command, s.next command⟩ mem_concat_self
      have hnext := good_next hgood hlast
      refine ⟨hnext, fun x hx => ?_⟩
      rcases mem_append.1 hx with hx | hx
      · exact hpast x hx
      · obtain rfl := mem_singleton.1 hx
        exact ⟨hgood, hnext, keeps_next hlast⟩
  exact ⟨hall.1.toSound, fun x hx => ⟨(hall.2 x hx).1.toSound, (hall.2 x hx).2.1.toSound, (hall.2 x hx).2.2⟩⟩

/-! ## The two ways it fails -/

/-- A terminal that takes everything but a cursor movement upwards. -/
def plainTarget : GraphicsTarget where
  decompress _ := .error "TypeError"
  load _ width height _ := .ok (width, height)
  cursor := (0, 0)
  cell := (1, 1)
  advance _ rows := if rows < 1 then .error "RangeError" else .ok ()

def controlFor (fields : List (Nat × Text)) : Control :=
  fields.foldl (fun control entry => control.insert entry.1 entry.2) Table.empty

/-- `a=T,i=9,p=4,s=2,v=1` with two pixels -/
def wideUpload : Command :=
  .accept plainTarget (controlFor [(97, [84]), (105, [57]), (112, [52]), (115, [50]), (118, [49])]) (List.replicate 11 65)

/-- `a=t,i=9,s=1,v=1` with one pixel -/
def narrowUpload : Command :=
  .accept plainTarget (controlFor [(97, [116]), (105, [57]), (115, [49]), (118, [49])]) (List.replicate 6 65)

/-- `a=p,i=9,p=5,Y=-5` -/
def placementAbove : Command :=
  .accept plainTarget (controlFor [(97, [112]), (105, [57]), (112, [53]), (89, [45, 53])]) []

theorem faithful_plainTarget : Faithful plainTarget := by
  intro bytes width height format size h
  cases h
  rfl

theorem safe_wideUpload : new.Safe wideUpload := by
  refine ⟨faithful_plainTarget, fun _ => ⟨fun _ _ _ _ _ _ _ _ placement hp => ?_, ?_⟩⟩
  · have hnone : (none : Option KittyPlacement) = some placement := hp
    cases hnone
  have hall : ∀ entry ∈ new.placing plainTarget
      (controlFor [(97, [84]), (105, [57]), (112, [52]), (115, [50]), (118, [49])]) (List.replicate 11 65),
      advance plainTarget entry.1 entry.2 = .ok () := by decide +kernel
  exact fun placement header h => hall (placement, header) h

theorem graphics_conduct_wideUpload : Sound (new.next wideUpload) ∧
    ∀ x ∈ [(⟨new, wideUpload, new.next wideUpload⟩ : Transition KittyGraphics Command)],
      Sound x.src ∧ Sound x.dst ∧ x.src.KeepsOnError x.label x.dst :=
  have hrun : Run ([] ++ [⟨new, wideUpload, new.next wideUpload⟩]) (new.next wideUpload) := .snoc (.start rfl) rfl
  graphics_conduct hrun fun _ hx => mem_singleton.1 hx ▸ safe_wideUpload

/-- A smaller image under the same number leaves the placement outside; a placement whose cursor movement is refused is
answered with an error and stays. -/
theorem graphics_break : ¬ Sound ((new.next wideUpload).next narrowUpload) ∧
    ¬ (new.next wideUpload).KeepsOnError placementAbove ((new.next wideUpload).next placementAbove) := by
  constructor
  · intro h
    obtain ⟨-, image, himage, hinside⟩ :=
      h.inside (9, 4) ⟨9, 4, 0, 0, 0, 0, 2, 1, 0, 0, 0, 0, 0⟩ (by decide +kernel)
    have hsmall : ((new.next wideUpload).next narrowUpload).images.get 9 = some ⟨1, 1, 1⟩ := by decide +kernel
    cases himage.symm.trans hsmall
    exact absurd hinside.right (by decide)
  · intro h
    obtain ⟨hplacements, -⟩ := h "RangeError" (by decide +kernel)
    have hsize : ((new.next wideUpload).next placementAbove).placements.size ≠ (new.next wideUpload).placements.size := by
      decide +kernel
    exact hsize (congrArg Table.size hplacements)

end KittyGraphics
end Kitty
end Yuzora
