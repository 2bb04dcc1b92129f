import HttpsServer.Config.Reading

/-!
# HttpsServer.Config.Keys

Which settings share a key of the map.

`make_key` is not injective: a dot inside a section or inside a key is not told
from the dot between them (`makeKey_eq_iff`).  Two settings that collide share
one value, which `set` and a file show in different ways; settings that do not
are kept apart in both.
-/

namespace HttpsServer.Config

/-- `make_key` builds one key for the two settings. -/
def Collide (p q : Bytes × Bytes) : Prop := Nested p q ∨ Nested q p

theorem flatKey_eq (a : Assignment) (p : Bytes × Bytes) :
    a.flatKey = makeKey p.1 p.2 ↔ a.pair = p ∨ Collide a.pair p :=
  makeKey_eq_iff (p := a.pair)

theorem makeKey_eq_iff_of_ne {p q : Bytes × Bytes} (hne : p ≠ q) :
    makeKey p.1 p.2 = makeKey q.1 q.2 ↔ Collide p q :=
  makeKey_eq_iff.trans (or_iff_right hne)

/-! ## set -/

/-- `set` of one setting takes effect and leaves another one alone. -/
def SetsOnly (c : Config) (p q : Bytes × Bytes) (value : Bytes) : Prop :=
  (c.set p.1 p.2 value).get p.1 p.2 = .ok value ∧
  (c.set p.1 p.2 value).contains q.1 q.2 = c.contains q.1 q.2 ∧
  (c.set p.1 p.2 value).get q.1 q.2 = c.get q.1 q.2

theorem setsOnly_iff {p q : Bytes × Bytes} (hne : p ≠ q) (c : Config) (value : Bytes) :
    SetsOnly c p q value ↔ ¬ Collide p q ∨ c.get q.1 q.2 = .ok value := by
  have hown : (c.set p.1 p.2 value).get p.1 p.2 = .ok value := by
    rw [get_eq_ok_iff, find_set, if_pos rfl]
  have hkey : makeKey q.1 q.2 = makeKey p.1 p.2 ↔ Collide p q := eq_comm.trans (makeKey_eq_iff_of_ne hne)
  have hother := c.find_set p.1 p.2 value q.1 q.2
  by_cases hcollide : Collide p q
  · rw [if_pos (hkey.2 hcollide)] at hother
    simp only [hcollide, not_true_eq_false, false_or]
    constructor
    · rintro ⟨-, -, hget⟩
      rw [← hget, get_eq_ok_iff, hother]
    · intro hget
      have hfind : (c.set p.1 p.2 value).find q.1 q.2 = c.find q.1 q.2 := by
        rw [hother, get_eq_ok_iff.1 hget]
      exact ⟨hown, by rw [contains_eq, contains_eq, hfind], get_eq_get_iff.2 hfind⟩
  · rw [if_neg (mt hkey.1 hcollide)] at hother
    exact iff_of_true ⟨hown, by rw [contains_eq, contains_eq, hother], get_eq_get_iff.2 hother⟩
      (.inl hcollide)

/-! ## A file -/

/-- The configuration has the value that the file gives the setting last. -/
def Keeps (c : Config) (as : List Assignment) (p : Bytes × Bytes) : Prop :=
  ∀ a, lastUnder Assignment.pair p as = some a → c.get p.1 p.2 = .ok a.value

/-- The file gives both settings the same value in the end. -/
def SameValue (as : List Assignment) (p q : Bytes × Bytes) : Prop :=
  ∀ a b, lastUnder Assignment.pair p as = some a → lastUnder Assignment.pair q as = some b →
    a.value = b.value

/-- No third setting of the file collides with one of the two. -/
def NoThird (as : List Assignment) (p q : Bytes × Bytes) : Prop :=
  ∀ a ∈ as, a.pair = p ∨ a.pair = q ∨ ¬ Collide a.pair p ∧ ¬ Collide a.pair q

theorem collide_comm {p q : Bytes × Bytes} : Collide p q ↔ Collide q p := or_comm

theorem NoThird.symm {as : List Assignment} {p q : Bytes × Bytes} (h : NoThird as p q) :
    NoThird as q p := fun a ha => by
  rcases h a ha with hp | hq | ⟨hp, hq⟩
  · exact .inr (.inl hp)
  · exact .inl hq
  · exact .inr (.inr ⟨hq, hp⟩)

theorem SameValue.symm {as : List Assignment} {p q : Bytes × Bytes} (h : SameValue as p q) :
    SameValue as q p := fun a b ha hb => (h b a hb ha).symm

/-- A setting that no other entry collides with has the last of its own
values. -/
theorem keeps_of_apart {c : Config} {as : List Assignment} (h : c.Holds as) {p q : Bytes × Bytes}
    (hthird : NoThird as p q) (hcollide : ¬ Collide p q) : c.Keeps as p := by
  have hown : ∀ a ∈ as, a.flatKey = makeKey p.1 p.2 ↔ a.pair = p := by
    intro a ha
    refine (flatKey_eq a p).trans ⟨fun hkey => ?_, .inl⟩
    rcases hthird a ha with hp | hq | ⟨hp, -⟩
    · exact hp
    · rw [hq] at hkey ⊢
      exact hkey.resolve_right fun hc => hcollide (collide_comm.1 hc)
    · exact hkey.resolve_right hp
  intro a ha
  rw [get_eq_ok_iff, find_of_holds h, lastUnder_congr Assignment.flatKey hown, ha]
  rfl

/-- Of two settings that collide, both get the value of the last entry of
either. -/
theorem keeps_iff_of_last {c : Config} {as : List Assignment} (h : c.Holds as)
    {p q : Bytes × Bytes} (hkey : makeKey p.1 p.2 = makeKey q.1 q.2) {last : Assignment}
    (hlast : lastUnder Assignment.flatKey (makeKey p.1 p.2) as = some last)
    (hp : lastUnder Assignment.pair p as = some last) :
    c.Keeps as p ∧ c.Keeps as q ↔ SameValue as p q := by
  have hgetp : c.get p.1 p.2 = .ok last.value := by
    rw [get_eq_ok_iff, find_of_holds h, hlast]
    rfl
  have hgetq : c.get q.1 q.2 = .ok last.value := by
    rw [get_eq_ok_iff, find_of_holds h, ← hkey, hlast]
    rfl
  constructor
  · rintro ⟨-, hq⟩ a b ha hb
    obtain rfl : last = a := Option.some.inj (hp.symm.trans ha)
    exact Except.ok.inj (hgetq.symm.trans (hq b hb))
  · intro hsame
    refine ⟨fun a ha => ?_, fun b hb => ?_⟩
    · obtain rfl : last = a := Option.some.inj (hp.symm.trans ha)
      exact hgetp
    · rw [← hsame last b hp hb]
      exact hgetq

theorem keeps_iff {c : Config} {as : List Assignment} (h : c.Holds as) {p q : Bytes × Bytes}
    (hne : p ≠ q) (hthird : NoThird as p q) :
    c.Keeps as p ∧ c.Keeps as q ↔ ¬ Collide p q ∨ SameValue as p q := by
  by_cases hcollide : Collide p q
  · have hkey := (makeKey_eq_iff_of_ne hne).2 hcollide
    simp only [hcollide, not_true_eq_false, false_or]
    cases hlast : lastUnder Assignment.flatKey (makeKey p.1 p.2) as with
    | none =>
        -- the file gives neither of them a value
        rw [lastUnder_eq_none_iff] at hlast
        have hnone : ∀ r, makeKey p.1 p.2 = makeKey r.1 r.2 → ∀ a,
            lastUnder Assignment.pair r as = some a → False := by
          intro r hr a ha
          obtain ⟨hmem, rfl⟩ := lastUnder_eq_some _ ha
          exact hlast (List.mem_map.2 ⟨a, hmem, hr.symm⟩)
        exact iff_of_true
          ⟨fun a ha => (hnone p rfl a ha).elim, fun a ha => (hnone q hkey a ha).elim⟩
          fun a _ ha _ => (hnone p rfl a ha).elim
    | some last =>
        obtain ⟨hmem, hflat⟩ := lastUnder_eq_some _ hlast
        have hown : lastUnder Assignment.pair last.pair as = some last :=
          lastUnder_refine Assignment.pair (fun a b hab => by
            rw [Assignment.flatKey, Assignment.flatKey, (Prod.mk.inj hab).1, (Prod.mk.inj hab).2]) hlast
        rcases hthird last hmem with hp | hq | ⟨hp, -⟩
        · exact keeps_iff_of_last h hkey hlast (hp ▸ hown)
        · have hiff := keeps_iff_of_last h hkey.symm (hkey ▸ hlast) (hq ▸ hown)
          exact and_comm.trans (hiff.trans ⟨SameValue.symm, SameValue.symm⟩)
        · have hpair := ((flatKey_eq last p).1 hflat).resolve_right hp
          exact keeps_iff_of_last h hkey hlast (hpair ▸ hown)
  · exact iff_of_true
      ⟨keeps_of_apart h hthird hcollide, keeps_of_apart h hthird.symm (mt collide_comm.1 hcollide)⟩
      (.inl hcollide)

/-! ## The property -/

/-- **When two settings are kept apart**: by `set`, and by a file without a
third setting that collides with one of them, exactly if the two do not collide
or have the same value. -/
theorem kept_apart_iff {p q : Bytes × Bytes} (hne : p ≠ q) :
    (∀ c value, SetsOnly c p q value ↔ ¬ Collide p q ∨ c.get q.1 q.2 = .ok value) ∧
    ∀ (c : Config) (text : Bytes) (as : List Assignment), IsFile text as → NoThird as p q →
      (c.loadFromString text).2 = none ∧
      ((c.loadFromString text).1.Keeps as p ∧ (c.loadFromString text).1.Keeps as q ↔
        ¬ Collide p q ∨ SameValue as p q) := by
  refine ⟨setsOnly_iff hne, fun c text as hfile hthird => ?_⟩
  obtain ⟨hreturns, hholds⟩ := loadFromString_of_isFile hfile c
  exact ⟨hreturns, keeps_iff hholds hne hthird⟩

/-- A file in which two settings collide. -/
def dottedFile : Bytes :=
  (ascii "[a.b]" ++ [LF]) ++ ((ascii "c = 1" ++ [LF]) ++ ((ascii "[a]" ++ [LF]) ++
    ((ascii "b.c = 2" ++ [LF]) ++ [])))

/-- What it assigns. -/
def dottedAssignments : List Assignment :=
  [⟨ascii "a.b", ascii "c", ascii "1"⟩, ⟨ascii "a", ascii "b.c", ascii "2"⟩]

theorem isFile_dotted : IsFile dottedFile dottedAssignments := by
  have hblank : Blanks [] := fun _ h => absurd h List.not_mem_nil
  have hheading : ∀ sect, sect ≠ [] → IsLine ([] ++ 91 :: (sect ++ 93 :: [])) (.heading sect) :=
    fun _ => .heading hblank hblank
  have hone : IsLine (ascii "c = 1") (.assignment (ascii "c") (ascii "1")) :=
    @IsLine.entry (ascii "c ") (ascii " 1") (by decide) (by decide) (by decide) (by decide)
  have htwo : IsLine (ascii "b.c = 2") (.assignment (ascii "b.c") (ascii "2")) :=
    @IsLine.entry (ascii "b.c ") (ascii " 2") (by decide) (by decide) (by decide) (by decide)
  have hends : ∀ line, LF ∉ line → Ended line (line ++ [LF]) := fun _ => .lf
  refine ⟨[ascii "[a.b]", ascii "c = 1", ascii "[a]", ascii "b.c = 2"], _,
    .cons (hheading (ascii "a.b") (by decide)) (.cons hone (.cons (hheading (ascii "a") (by decide))
      (.cons htwo .nil))), fun m hm => ⟨ascii "a.b", (Option.some.inj hm).symm⟩, ?_, rfl⟩
  exact .cons (hends _ (by decide)) (.cons (hends _ (by decide)) (.cons (hends _ (by decide))
    (.cons (hends _ (by decide)) .nil)))

/-- The file does not keep both values. -/
theorem kept_apart_iff_dotted :
    ¬ ((loadFromString {} dottedFile).1.Keeps dottedAssignments (ascii "a.b", ascii "c") ∧
      (loadFromString {} dottedFile).1.Keeps dottedAssignments (ascii "a", ascii "b.c")) := by
  have hthird : NoThird dottedAssignments (ascii "a.b", ascii "c") (ascii "a", ascii "b.c") := by
    intro a ha
    rcases List.mem_cons.1 ha with rfl | ha
    · exact .inl rfl
    · rw [List.mem_singleton.1 ha]
      exact .inr (.inl rfl)
  rw [((kept_apart_iff (by decide)).2 {} _ _ isFile_dotted hthird).2]
  rintro (hcollide | hsame)
  · exact hcollide (.inr ⟨ascii "b", by decide, by decide⟩)
  · exact absurd (hsame _ _ rfl rfl) (by decide)

/-- Setting `a.b`/`c` brings `a`/`b.c` into being. -/
theorem kept_apart_counterexample :
    ¬ ∀ (c : Config) (p q : Bytes × Bytes) (value : Bytes), p ≠ q → SetsOnly c p q value := by
  intro h
  have hcontains :=
    (h {} (ascii "a.b", ascii "c") (ascii "a", ascii "b.c") (ascii "1") (by decide)).2.1
  exact absurd hcontains (by decide)

end HttpsServer.Config
