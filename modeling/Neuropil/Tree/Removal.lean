import Neuropil.Tree.RedBlack

namespace Neuropil.Tree.Removal

open Lib.Fault Tree.RedBlack

section

variable {κ ν : Type}

def entries : Node κ ν → List (κ × ν)
  | .nil => []
  | .node _ l k v r => entries l ++ (k, v) :: entries r

def before : Path κ ν → List (κ × ν)
  | [] => []
  | f :: path => match f.side with
    | .left => before path
    | .right => before path ++ (entries f.sibling ++ [(f.key, f.val)])

def after : Path κ ν → List (κ × ν)
  | [] => []
  | f :: path => match f.side with
    | .left => (f.key, f.val) :: (entries f.sibling ++ after path)
    | .right => after path

@[simp]
lemma isRed_red (l r : Node κ ν) (k : κ) (v : ν) : isRed (.node .red l k v r) = true := rfl

@[simp]
lemma paint_node (c d : Color) (l r : Node κ ν) (k : κ) (v : ν) :
    paint c (.node d l k v r) = .node c l k v r := rfl

@[simp]
lemma entries_paint (color : Color) (t : Node κ ν) : entries (paint color t) = entries t := by
  cases t <;> rfl

lemma before_join (f : Frame κ ν) (path : Path κ ν) (t : Node κ ν) :
    before (f :: path) ++ entries t ++ after (f :: path) =
      before path ++ entries (f.join t) ++ after path := by
  obtain ⟨side, color, key, val, sibling⟩ := f
  cases side <;> simp [before, after, Frame.join, join, entries]

lemma entries_plug (path : Path κ ν) (t : Node κ ν) :
    entries (plug path t) = before path ++ entries t ++ after path := by
  induction path generalizing t with
  | nil => simp [plug, before, after]
  | cons f path ih => rw [plug, ih, before_join]

/-- `Balanced t c n`: no red element has a red child, `n` black elements lie on every way down,
and the topmost element has colour `c`. -/
inductive Balanced : Node κ ν → Color → ℕ → Prop
  | nil : Balanced .nil .black 0
  | red {l r : Node κ ν} {k : κ} {v : ν} {n : ℕ} (hl : Balanced l .black n)
      (hr : Balanced r .black n) : Balanced (.node .red l k v r) .red n
  | black {l r : Node κ ν} {k : κ} {v : ν} {n : ℕ} {c c' : Color} (hl : Balanced l c n)
      (hr : Balanced r c' n) : Balanced (.node .black l k v r) .black (n + 1)

/-- `Around path c n`: a subtree of colour `c` with `n` black elements on every way down fits below
`path`, in a tree with a black root. -/
inductive Around : Path κ ν → Color → ℕ → Prop
  | root {n : ℕ} : Around [] .black n
  | red {f : Frame κ ν} {path : Path κ ν} {n : ℕ} (hf : f.color = .red)
      (hs : Balanced f.sibling .black n) (hp : Around path .red n) : Around (f :: path) .black n
  | black {f : Frame κ ν} {path : Path κ ν} {n : ℕ} {c c' : Color} (hf : f.color = .black)
      (hs : Balanced f.sibling c' n) (hp : Around path .black (n + 1)) : Around (f :: path) c n

variable {n : ℕ} {c : Color} {v : ν} {k : κ} {side : Side}

lemma Balanced.join_black {near far : Node κ ν} {c' : Color}
    (hn : Balanced near c n) (hf : Balanced far c' n) :
    Balanced (join side .black near k v far) .black (n + 1) := by
  cases side with
  | left => exact .black hn hf
  | right => exact .black hf hn

lemma Balanced.join_red {near far : Node κ ν} (hn : Balanced near .black n)
    (hf : Balanced far .black n) : Balanced (join side .red near k v far) .red n := by
  cases side with
  | left => exact .red hn hf
  | right => exact .red hf hn

variable {t : Node κ ν}

lemma Balanced.isRed_eq (h : Balanced t c n) : isRed t = decide (c = .red) := by
  cases h <;> rfl

lemma Balanced.paint_black (h : Balanced t c n) : ∃ m, Balanced (paint .black t) .black m := by
  cases h with
  | nil => exact ⟨0, .nil⟩
  | red hl hr | black hl hr => exact ⟨_, .black hl hr⟩

lemma Balanced.paint_red (h : Balanced t .red n) : Balanced (paint .black t) .black (n + 1) := by
  cases h with
  | red hl hr => exact .black hl hr

variable {path : Path κ ν}

lemma Around.black_of_any (h : Around path c n) : Around path .black n := by
  cases h with
  | root => exact .root
  | red hf hs hp => exact .red hf hs hp
  | black hf hs hp => exact .black hf hs hp

lemma Around.plug (hp : Around path c n) (ht : Balanced t c n) :
    ∃ m, Balanced (plug path t) .black m := by
  induction hp generalizing t with
  | root => exact ⟨_, ht⟩
  | @red f path n hf hs hp ih =>
    have hj : Balanced (f.join t) .red n := by
      rw [Frame.join, hf]
      exact ht.join_red hs
    exact ih hj
  | @black f path n c c' hf hs hp ih =>
    have hj : Balanced (f.join t) .black (n + 1) := by
      rw [Frame.join, hf]
      exact ht.join_black hs
    exact ih hj

/-- The trees the macros build: a black root, and balanced below it. -/
def Valid (root : Node κ ν) : Prop := ∃ n, Balanced root .black n

lemma valid_nil : Valid (.nil : Node κ ν) := ⟨0, .nil⟩

def Holds (root : Node κ ν) (contents : List (κ × ν)) : Prop := Valid root ∧ entries root = contents

lemma Around.holds (hp : Around path c n) (ht : Balanced t c n) :
    Holds (RedBlack.plug path t) (before path ++ entries t ++ after path) :=
  ⟨hp.plug ht, entries_plug path t⟩

lemma Holds.paint {contents : List (κ × ν)} (h : Holds t contents) :
    Holds (paint .black t) contents := by
  obtain ⟨⟨n, hb⟩, he⟩ := h
  exact ⟨hb.paint_black, by rw [entries_paint, he]⟩

@[simp]
lemma paint_join (side : Side) (c d : Color) (near far : Node κ ν) (k : κ) (v : ν) :
    paint c (join side d near k v far) = join side c near k v far := by
  cases side <;> rfl

lemma join_other (side : Side) (c : Color) (near far : Node κ ν) (k : κ) (v : ν) :
    join side c near k v far = join side.other c far k v near := by
  cases side <;> rfl

lemma other_other (side : Side) : side.other.other = side := by
  cases side <;> rfl

lemma eq_other {side' : Side} (h : side ≠ side') : side = side'.other := by
  cases side <;> cases side' <;> first | rfl | exact absurd rfl h

section

variable (side : Side) (c d : Color) (near inner outer : Node κ ν) (k k' : κ) (v v' : ν)

lemma rotate_join : rotate side (join side c near k v (join side d inner k' v' outer)) =
      .ok (join side d (join side c near k v inner) k' v' outer) := by
  cases side <;> rfl

lemma rotate_other_join :
    rotate side.other (join side c (join side d outer k' v' inner) k v near) =
      .ok (join side d outer k' v' (join side c inner k v near)) := by
  cases side <;> rfl

end

lemma entries_rotated (side : Side) (c d c' d' : Color) (near inner outer : Node κ ν)
    (k k' : κ) (v v' : ν) : entries (join side c near k v (join side d inner k' v' outer)) =
      entries (join side c' (join side d' near k v inner) k' v' outer) := by
  cases side <;> simp [join, entries]

lemma Balanced.of_join_red {near far : Node κ ν}
    (h : Balanced (join side .red near k v far) c n) :
    Balanced near .black n ∧ Balanced far .black n := by
  cases side with
  | left =>
    cases h with
    | red hl hr => exact ⟨hl, hr⟩
  | right =>
    cases h with
    | red hl hr => exact ⟨hr, hl⟩

lemma Balanced.exists_join_red (h : Balanced t .red n) (side : Side) :
    ∃ near k v far, t = join side .red near k v far ∧ Balanced near .black n ∧
      Balanced far .black n := by
  cases h with
  | @red l r k v n hl hr =>
    cases side with
    | left => exact ⟨l, k, v, r, rfl, hl, hr⟩
    | right => exact ⟨r, k, v, l, rfl, hr, hl⟩

lemma insertRotate_spec {f g : Frame κ ν} {elm : Node κ ν} (hf : f.color = .red)
    (helm : Balanced elm .red n) (hfs : Balanced f.sibling .black n)
    (hgs : Balanced g.sibling .black n) :
    ∃ top, insertRotate f g elm = .ok top ∧ Balanced top .black (n + 1) ∧
      entries top = entries (g.join (f.join elm)) := by
  obtain ⟨side, color, key, val, sibling⟩ := f
  obtain ⟨gside, gcolor, gkey, gval, gsibling⟩ := g
  subst hf
  by_cases hside : side = gside
  · subst hside
    refine ⟨join side .black elm key val (join side .red sibling gkey gval gsibling), ?_, ?_, ?_⟩
    · simp only [insertRotate, Frame.join, if_true, pure_bind, paint_join]
      exact rotate_other_join ..
    · exact helm.join_black (hfs.join_red hgs)
    · exact entries_rotated ..
  · -- the element lies between its parent and its grandparent
    obtain ⟨near, k, v, far, rfl, hnear, hfar⟩ := helm.exists_join_red gside
    have hpar : Frame.join ⟨side, .red, key, val, sibling⟩ (join gside .red near k v far) =
        join gside .red sibling key val (join gside .red near k v far) := by
      rw [Frame.join, eq_other hside, join_other, other_other]
    refine ⟨join gside .black (join gside .red sibling key val near) k v
      (join gside .red far gkey gval gsibling), ?_, ?_, ?_⟩
    · rw [insertRotate, if_neg hside, hpar, rotate_join, ok_bind]
      simp only [Frame.join, paint_join]
      exact rotate_other_join ..
    · exact (hfs.join_red hnear).join_black (hfar.join_red hgs)
    · rw [hpar]
      cases gside <;> simp [Frame.join, join, entries]

lemma insertColor_spec {elm : Node κ ν} (hp : Around path .black n) (helm : Balanced elm .red n) :
    ∃ t, insertColor path elm = .ok t ∧ Holds t (before path ++ entries elm ++ after path) := by
  fun_induction insertColor path elm generalizing n with
  | case1 elm =>
    exact ⟨_, rfl, helm.paint_black, by simp [before, after]⟩
  | case2 f path elm hf =>
    cases hp with
    | red hf' hs hp => exact absurd (hf.symm.trans hf') (by decide)
    | black hf' hs hp =>
      exact ⟨_, rfl, ((Around.black hf' hs hp).holds helm).paint⟩
  | case3 f elm hf =>
    -- a red parent is never the root
    cases hp with
    | red hf' hs hp => cases hp
    | black hf' hs hp => exact absurd (hf.symm.trans hf') (by decide)
  | case4 f elm hf g path' hred ih =>
    cases hp with
    | black hf' hs hp => exact absurd (hf.symm.trans hf') (by decide)
    | red hf' hs hp =>
      cases hp with
      | @black _ _ _ _ c hg hgs hp =>
        have hc : c = .red := by simpa [hgs.isRed_eq] using hred
        subst hc
        have hpar : Balanced (Frame.join { f with color := .black } elm) .black (n + 1) :=
          helm.join_black hs
        obtain ⟨t, ht, hh⟩ := ih hp (hpar.join_red hgs.paint_red)
        refine ⟨t, ht, ?_⟩
        rw [before_join, before_join]
        have hent : entries (Frame.join { g with color := .red, sibling := paint .black g.sibling }
            (Frame.join { f with color := .black } elm)) = entries (g.join (f.join elm)) := by
          simp only [Frame.join]
          cases g.side <;> cases f.side <;> simp [join, entries]
        rwa [hent] at hh
  | case5 f elm hf g path' hred =>
    cases hp with
    | black hf' hs hp => exact absurd (hf.symm.trans hf') (by decide)
    | red hf' hs hp =>
      cases hp with
      | @black _ _ _ _ c hg hgs hp =>
        have hc : c = .black := by
          cases c with
          | black => rfl
          | red => exact absurd hgs.isRed_eq (by simpa using hred)
        subst hc
        obtain ⟨top, htop, hbal, hent⟩ := insertRotate_spec hf helm hs hgs
        refine ⟨paint .black (plug path' top), by rw [htop, ok_bind], ?_⟩
        rw [before_join, before_join, ← hent]
        exact (hp.holds hbal).paint

lemma plug_search (cmp : κ → κ → Int) (elm : κ) (path : Path κ ν) (t : Node κ ν) :
    plug (search cmp elm path t).1 (search cmp elm path t).2 = plug path t := by
  fun_induction search cmp elm path t with
  | case1 path => rfl
  | case2 path c l k v r hlt ih => exact ih
  | case3 path c l k v r hlt hgt ih => exact ih
  | case4 path c l k v r hlt hgt => rfl

lemma Balanced.color_eq {l r : Node κ ν} {c' : Color}
    (h : Balanced (.node c l k v r) c' n) : c' = c := by
  cases h <;> rfl

lemma Around.down {l r : Node κ ν} (key : κ) (val : ν) (hp : Around path c n)
    (ht : Balanced (.node c l k v r) c n) :
    (∃ c' m, Around (⟨.left, c, key, val, r⟩ :: path) c' m ∧ Balanced l c' m) ∧
      ∃ c' m, Around (⟨.right, c, key, val, l⟩ :: path) c' m ∧ Balanced r c' m := by
  cases ht with
  | red hl hr => exact ⟨⟨_, _, .red rfl hr hp, hl⟩, _, _, .red rfl hl hp, hr⟩
  | black hl hr => exact ⟨⟨_, _, .black rfl hr hp, hl⟩, _, _, .black rfl hl hp, hr⟩

lemma Around.search (cmp : κ → κ → Int) (elm : κ) (hp : Around path c n) (ht : Balanced t c n) :
    ∃ c' m, Around (search cmp elm path t).1 c' m ∧ Balanced (search cmp elm path t).2 c' m := by
  fun_induction RedBlack.search cmp elm path t generalizing c n with
  | case1 path => exact ⟨c, n, hp, ht⟩
  | case2 path c l k v r hlt ih =>
    obtain rfl := ht.color_eq
    obtain ⟨⟨c', m, hp', hl⟩, -⟩ := hp.down k v ht
    exact ih hp' hl
  | case3 path c l k v r hlt hgt ih =>
    obtain rfl := ht.color_eq
    obtain ⟨-, c', m, hp', hr⟩ := hp.down k v ht
    exact ih hp' hr
  | case4 path c l k v r hlt hgt => exact ⟨_, n, hp, ht⟩

lemma Balanced.search_le (cmp : κ → κ → Int) (elm : κ) (path : Path κ ν) (h : Balanced t c n) :
    (search cmp elm path t).1.length ≤ path.length + 2 * n + if c = .red then 1 else 0 := by
  fun_induction RedBlack.search cmp elm path t generalizing c n with
  | case1 path | case4 path => exact (Nat.le_add_right _ _).trans (Nat.le_add_right _ _)
  | case2 path d l k v r hlt ih | case3 path d l k v r hlt hgt ih =>
    cases h with
    | red hl hr | black hl hr => grind

end

variable {κ ν : Type}

def grow : Color → ℕ → ℕ
  | .black, n => n + 1
  | .red, n => n

variable {n : ℕ} {c : Color} {side : Side} {v : ν} {k : κ}

lemma balanced_join {near far : Node κ ν} (hn : Balanced near .black n)
    (hf : Balanced far .black n) : Balanced (join side c near k v far) c (grow c n) := by
  cases c with
  | black => exact hn.join_black hf
  | red => exact hn.join_red hf

lemma exists_join_black {t : Node κ ν} (h : Balanced t .black (n + 1)) (side : Side) :
    ∃ near k v far c c', t = join side .black near k v far ∧ Balanced near c n ∧
      Balanced far c' n := by
  cases h with
  | @black l r k v n c c' hl hr =>
    cases side with
    | left => exact ⟨l, k, v, r, c, c', rfl, hl, hr⟩
    | right => exact ⟨r, k, v, l, c', c, rfl, hr, hl⟩

section

variable (side : Side) (color c : Color) (key k : κ) (val v : ν) (elm inner outer : Node κ ν)

lemma settle_children_black (hi : isRed inner = false) (ho : isRed outer = false) :
    settle side color key val elm (join side c inner k v outer) =
      .ok (.inl (join side color elm key val (join side .red inner k v outer))) := by
  cases side <;> simp [settle, join, hi, ho]

lemma settle_outer_red (ho : isRed outer = true) :
    settle side color key val elm (join side c inner k v outer) =
      .ok (.inr (join side color (join side .black elm key val inner) k v
        (paint .black outer))) := by
  cases side <;> simp [settle, join, ho, takeColor, rotate, ok_bind]

end

lemma settle_inner_red (side : Side) (color c : Color) (key k k' : κ) (val v v' : ν)
    (elm near far outer : Node κ ν) (ho : isRed outer = false) :
    settle side color key val elm (join side c (join side .red near k' v' far) k v outer) =
      .ok (.inr (join side color (join side .black elm key val near) k' v'
        (join side .black far k v outer))) := by
  cases side <;> simp [settle, join, ho, takeColor, rotate, ok_bind]

def Settled (side : Side) (color : Color) (key : κ) (val : ν) (elm : Node κ ν) (n : ℕ)
    (contents : List (κ × ν)) : Node κ ν ⊕ Node κ ν → Prop
  | .inl parent => ∃ tmp, parent = join side color elm key val tmp ∧ Balanced tmp .red n ∧
      entries parent = contents
  | .inr top => Balanced top color (grow color (n + 1)) ∧ entries top = contents

variable {elm : Node κ ν}

lemma settle_spec {tmp : Node κ ν} (side : Side) (color : Color) (key : κ) (val : ν)
    (helm : Balanced elm .black n) (htmp : Balanced tmp .black (n + 1)) :
    ∃ res, settle side color key val elm tmp = .ok res ∧
      Settled side color key val elm n (entries (join side color elm key val tmp)) res := by
  obtain ⟨inner, k, v, outer, c, c', rfl, hi, ho⟩ := exists_join_black htmp side
  cases c' with
  | red =>
    refine ⟨_, settle_outer_red side color .black key k val v elm inner outer ho.isRed_eq, ?_, ?_⟩
    · exact balanced_join (helm.join_black hi) ho.paint_red
    · cases side <;> simp [join, entries]
  | black =>
    cases c with
    | black =>
      refine ⟨_, settle_children_black side color .black key k val v elm inner outer hi.isRed_eq
        ho.isRed_eq, _, rfl, hi.join_red ho, ?_⟩
      cases side <;> simp [join, entries]
    | red =>
      obtain ⟨near, k', v', far, rfl, hn, hf⟩ := hi.exists_join_red side
      refine ⟨_, settle_inner_red side color .black key k k' val v v' elm near far outer
        ho.isRed_eq, ?_, ?_⟩
      · exact balanced_join (helm.join_black hn) (hf.join_black ho)
      · cases side <;> simp [join, entries]

def Short (elm : Node κ ν) (n : ℕ) : Prop :=
  Balanced elm .black n ∨ isRed elm = true ∧ Balanced (paint .black elm) .black (n + 1)

variable {path : Path κ ν} {f : Frame κ ν}

lemma around_above (hp : Around (f :: path) .black n) :
    Around path f.color (grow f.color n) ∧ ∃ c, Balanced f.sibling c n ∧
      (c = .red → f.color = .black) := by
  cases hp with
  | red hf hs hp =>
    rw [hf]
    exact ⟨hp, .black, hs, by simp⟩
  | @black _ _ _ _ c hf hs hp =>
    rw [hf]
    exact ⟨hp, c, hs, fun _ => rfl⟩

lemma removeColor_black (hs : Balanced f.sibling .black (n + 1)) (hr : isRed elm = false) :
    removeColor (f :: path) elm =
      (settle f.side f.color f.key f.val elm f.sibling >>= fun res => match res with
        | .inl parent => removeColor path parent
        | .inr top => .ok (paint .black (plug path top))) := by
  generalize hf : f.sibling = sibling at hs
  cases hs with
  | black hl hr' =>
    rw [removeColor, hr, hf]
    rfl

lemma removeColor_red {color : Color} {key : κ} {val : ν}
    {inner outer : Node κ ν} (hr : isRed elm = false) :
    removeColor (⟨side, color, key, val, join side .red inner k v outer⟩ :: path) elm =
      (settle side .red key val elm inner >>= fun res => match res with
        | .inl parent => .ok (plug (⟨side, .black, k, v, outer⟩ :: path) (paint .black parent))
        | .inr top => .ok (paint .black (plug (⟨side, .black, k, v, outer⟩ :: path) top))) := by
  cases side <;> rw [removeColor, hr] <;> rfl

lemma removeColor_spec_black (hp : Around path f.color (grow f.color (n + 1)))
    (hs : Balanced f.sibling .black (n + 1)) (helm : Balanced elm .black n)
    (ih : ∀ {elm : Node κ ν} {n : ℕ}, Around path .black (n + 1) → Short elm n →
      ∃ t, removeColor path elm = .ok t ∧ Holds t (before path ++ entries elm ++ after path)) :
    ∃ t, removeColor (f :: path) elm = .ok t ∧
      Holds t (before path ++ entries (f.join elm) ++ after path) := by
  obtain ⟨res, hres, hset⟩ := settle_spec f.side f.color f.key f.val helm hs
  rw [removeColor_black hs helm.isRed_eq, hres, ok_bind]
  cases res with
  | inr top =>
    obtain ⟨hbal, hent⟩ := hset
    refine ⟨_, rfl, ?_⟩
    have hh := (hp.holds hbal).paint
    rwa [hent] at hh
  | inl parent =>
    obtain ⟨tmp, rfl, hbal, hent⟩ := hset
    rw [Frame.join, ← hent]
    cases hc : f.color with
    | black =>
      rw [hc] at hp
      exact ih hp (.inl (helm.join_black hbal))
    | red =>
      rw [hc] at hp
      refine ih hp.black_of_any (.inr ⟨?_, ?_⟩)
      · cases f.side <;> rfl
      · rw [paint_join]
        exact helm.join_black hbal

lemma removeColor_spec_red {color : Color} {key : κ} {val : ν}
    {inner outer : Node κ ν} (hp : Around path .black (n + 1 + 1))
    (hi : Balanced inner .black (n + 1)) (ho : Balanced outer .black (n + 1))
    (helm : Balanced elm .black n) :
    ∃ t, removeColor (⟨side, color, key, val, join side .red inner k v outer⟩ :: path) elm =
      .ok t ∧ Holds t (before path ++
        entries (join side color elm key val (join side .red inner k v outer)) ++ after path) := by
  obtain ⟨res, hres, hset⟩ := settle_spec side .red key val helm hi
  rw [removeColor_red helm.isRed_eq, hres, ok_bind]
  have ha (c : Color) : Around (⟨side, .black, k, v, outer⟩ :: path) c (n + 1) := .black rfl ho hp
  have hcon : before path ++
      entries (join side color elm key val (join side .red inner k v outer)) ++ after path =
      before (⟨side, .black, k, v, outer⟩ :: path) ++
        entries (join side .red elm key val inner) ++
        after (⟨side, .black, k, v, outer⟩ :: path) := by
    rw [before_join]
    cases side <;> simp [Frame.join, join, entries]
  rw [hcon]
  cases res with
  | inr top =>
    obtain ⟨hbal, hent⟩ := hset
    refine ⟨_, rfl, ?_⟩
    have hh := ((ha .red).holds hbal).paint
    rwa [hent] at hh
  | inl parent =>
    obtain ⟨tmp, rfl, hbal, hent⟩ := hset
    refine ⟨_, rfl, ?_⟩
    have hb : Balanced (paint .black (join side .red elm key val tmp)) .black (n + 1) := by
      rw [paint_join]
      exact helm.join_black hbal
    have hh := (ha .black).holds hb
    rwa [entries_paint, hent] at hh

lemma removeColor_spec (hp : Around path .black (n + 1)) (helm : Short elm n) :
    ∃ t, removeColor path elm = .ok t ∧ Holds t (before path ++ entries elm ++ after path) := by
  induction path generalizing elm n with
  | nil =>
    refine ⟨_, rfl, ?_, by simp [before, after]⟩
    obtain h | ⟨-, h⟩ := helm
    · exact h.paint_black
    · exact ⟨_, h⟩
  | cons f path ih =>
    obtain h | ⟨hred, h⟩ := helm
    · rw [before_join]
      obtain ⟨hpath, c, hs, hc⟩ := around_above hp
      cases c with
      | black => exact removeColor_spec_black hpath hs h ih
      | red =>
        obtain ⟨side, color, key, val, sibling⟩ := f
        obtain ⟨inner, k, v, outer, rfl, hi, ho⟩ := hs.exists_join_red side
        rw [hc rfl] at hpath
        exact removeColor_spec_red hpath hi ho h
    · refine ⟨plug (f :: path) (paint .black elm), by rw [removeColor, if_pos hred], ?_⟩
      have hh := hp.holds h
      rwa [entries_paint] at hh

section

variable (path rest : Path κ ν) (c : Color) (k : κ) (v : ν) (r l : Node κ ν)

lemma before_leftmost :
    before ((leftmost path c k v r l).path ++ rest) = before (path ++ rest) := by
  induction l generalizing path c k v r with
  | nil => rfl
  | node c' l' k' v' r' ihl ihr => exact ihl ..

lemma after_leftmost :
    ((leftmost path c k v r l).key, (leftmost path c k v r l).val) ::
        (entries (leftmost path c k v r l).right ++
          after ((leftmost path c k v r l).path ++ rest)) =
      entries (.node c l k v r) ++ after (path ++ rest) := by
  induction l generalizing path c k v r with
  | nil => simp [leftmost, entries]
  | node c' l' k' v' r' ihl ihr =>
    rw [leftmost, ihl]
    simp [entries, after]

end

lemma around_leftmost {rest : Path κ ν} {r l : Node κ ν}
    (hp : Around (path ++ rest) c n) (ht : Balanced (.node c l k v r) c n) :
    ∃ m, Around ((leftmost path c k v r l).path ++ rest) (leftmost path c k v r l).color m ∧
      Balanced (.node (leftmost path c k v r l).color .nil (leftmost path c k v r l).key
        (leftmost path c k v r l).val (leftmost path c k v r l).right)
        (leftmost path c k v r l).color m := by
  induction l generalizing path c k v r n with
  | nil => exact ⟨n, hp, ht⟩
  | node c' l' k' v' r' ihl ihr =>
    obtain ⟨⟨d, m, hp', hl⟩, -⟩ := hp.down k v ht
    obtain rfl := hl.color_eq
    exact ihl hp' hl

lemma short_of_balanced {t : Node κ ν} (h : Balanced t c n) : Short t n := by
  cases c with
  | black => exact .inl h
  | red => exact .inr ⟨h.isRed_eq, h.paint_red⟩

lemma closeGap_spec {child : Node κ ν} (side : Side)
    (hp : Around path c n) (ht : Balanced (join side c .nil k v child) c n) :
    ∃ t, closeGap c path child = .ok t ∧ Holds t (before path ++ entries child ++ after path) := by
  cases c with
  | red =>
    obtain ⟨-, hc⟩ := ht.of_join_red
    exact ⟨_, rfl, hp.black_of_any.holds hc⟩
  | black =>
    have hch : ∃ m cc, n = m + 1 ∧ Balanced child cc m := by
      cases side with
      | left =>
        cases ht with
        | black hl hr => exact ⟨_, _, rfl, hr⟩
      | right =>
        cases ht with
        | black hl hr => exact ⟨_, _, rfl, hl⟩
    obtain ⟨m, cc, rfl, hc⟩ := hch
    exact removeColor_spec hp (short_of_balanced hc)

lemma rbRemove_spec {old : Found κ ν} (hp : Around old.path old.color n)
    (ht : Balanced old.elem old.color n) : ∃ t, rbRemove old = .ok t ∧
      Holds t (before old.path ++ (entries old.left ++ entries old.right) ++ after old.path) := by
  obtain ⟨path, color, left, key, val, right⟩ := old
  cases left with
  | nil => exact closeGap_spec .left hp ht
  | node cl ll kl vl rl =>
    cases right with
    | nil =>
      rw [entries, List.append_nil]
      exact closeGap_spec .right hp ht
    | node c l k v r =>
      -- the successor stands in the place of the element; the gap is where the successor was
      generalize hleft : Node.node cl ll kl vl rl = left at ht ⊢
      obtain ⟨-, c', m, hp', hr⟩ :=
        hp.down (leftmost [] c k v r l).key (leftmost [] c k v r l).val ht
      obtain rfl := hr.color_eq
      rw [← List.nil_append (_ :: path)] at hp'
      obtain ⟨m', ha, hb⟩ := around_leftmost hp' hr
      obtain ⟨t, ht', hh⟩ := closeGap_spec .left ha hb
      refine ⟨t, by rw [← ht', ← hleft]; rfl, ?_⟩
      have haft := after_leftmost [] (⟨.right, color, (leftmost [] c' k v r l).key,
        (leftmost [] c' k v r l).val, left⟩ :: path) c' k v r l
      simp only [before_leftmost, List.nil_append, before, after] at hh haft
      rw [List.append_assoc, List.append_assoc, List.append_assoc, List.singleton_append,
        haft] at hh
      simpa only [List.append_assoc] using hh

end Neuropil.Tree.Removal
