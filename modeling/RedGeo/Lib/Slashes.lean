import RedGeo.Lib.Bytes

/-!
# Paths as text

Texts made of parts with a slash before each. A path is cleaned by taking it
apart at its slashes and leaving the empty parts out.

* `split_render`, `clean_render` — taking apart gives back the parts, as long as
  there are no slashes in them.
* `render_prefix_iff` — a path and a slash begin another path if and only if its
  parts begin the parts of the other, and there are more of these.
-/

namespace RedGeo.Lib

open List

variable {t : Bytes} {ts : List Bytes}

/-- `strings.Split(s, "/")`. -/
def splitSlash : Bytes → List Bytes
  | [] => [[]]
  | c :: cs =>
    if c = 47 then [] :: splitSlash cs
    else
      match splitSlash cs with
      | [] => [[c]]
      | t :: ts => (c :: t) :: ts

/-- The parts, with a slash before each. -/
def render (ts : List Bytes) : Bytes := ts.flatMap fun t => 47 :: t

/-- Leave out the empty parts. -/
def cleanPath (s : Bytes) : Bytes := render ((splitSlash s).filter (· ≠ []))

/-- `strings.TrimPrefix`. -/
def trimText (s p : Bytes) : Bytes := if p <+: s then s.drop p.length else s

/-- What stands before the first slash, and what after it. -/
def cutSlash : Bytes → Option (Bytes × Bytes)
  | [] => none
  | c :: s => if c = 47 then some ([], s) else (cutSlash s).map fun st => (c :: st.1, st.2)

/-- What stands after the last slash. -/
def lastSegment (s : Bytes) : Bytes := (splitSlash s).getLastD []

/-- Without a slash. -/
abbrev Plain (t : Bytes) : Prop := 47 ∉ t

@[simp] lemma render_nil : render [] = [] := rfl

@[simp] lemma render_cons (t : Bytes) (ts : List Bytes) :
    render (t :: ts) = 47 :: (t ++ render ts) := rfl

lemma render_append (ts us : List Bytes) : render (ts ++ us) = render ts ++ render us :=
  flatMap_append

lemma plain_cons : Plain (c :: t) ↔ c ≠ 47 ∧ Plain t := by
  simp [Plain, eq_comm]

lemma splitSlash_of_plain (h : Plain t) : splitSlash t = [t] := by
  induction t with
  | nil => rfl
  | cons c t ih =>
    obtain ⟨hc, ht⟩ := plain_cons.mp h
    rw [splitSlash, if_neg hc, ih ht]

lemma splitSlash_append (h : Plain t) (s : Bytes) : splitSlash (t ++ 47 :: s) = t :: splitSlash s := by
  induction t with
  | nil => rfl
  | cons c t ih =>
    obtain ⟨hc, ht⟩ := plain_cons.mp h
    rw [cons_append, splitSlash, if_neg hc, ih ht]

/-- Taking apart what starts in the middle of a part. -/
lemma splitSlash_append_render (h : Plain t) (hs : ∀ t ∈ ts, Plain t) :
    splitSlash (t ++ render ts) = t :: ts := by
  induction ts generalizing t with
  | nil => rw [render_nil, append_nil, splitSlash_of_plain h]
  | cons u us ih =>
    rw [render_cons, splitSlash_append h, ih (hs u mem_cons_self) fun t ht => hs t (mem_cons_of_mem u ht)]

/-- **Taking a path apart.** -/
theorem split_render (hs : ∀ u ∈ t :: ts, Plain u) : splitSlash (render (t :: ts)) = [] :: t :: ts := by
  rw [render_cons, splitSlash, if_pos rfl, splitSlash_append_render (hs t mem_cons_self)
    fun u hu => hs u (mem_cons_of_mem t hu)]

/-- **Cleaning a path.** -/
theorem clean_render (hs : ∀ t ∈ ts, Plain t) : cleanPath (render ts) = render (ts.filter (· ≠ [])) := by
  cases ts with
  | nil => rfl
  | cons t ts => rw [cleanPath, split_render hs, filter_cons, if_neg (by simp)]

lemma render_injective (hts : ∀ t ∈ ts, Plain t) (hus : ∀ u ∈ us, Plain u) (h : render ts = render us) :
    ts = us := by
  cases ts with
  | nil =>
    cases us with
    | nil => rfl
    | cons u us => cases h
  | cons t ts =>
    cases us with
    | nil => cases h
    | cons u us =>
      have hSplit := congrArg splitSlash h
      rw [split_render hts, split_render hus] at hSplit
      exact (cons.inj hSplit).2

/-! ## Prefixes -/

/-- What follows a part in a path: nothing, or a slash. -/
def Stops (s : Bytes) : Prop := ∀ c ∈ s.head?, c = 47

lemma stops_render (ts : List Bytes) : Stops (render ts) := by
  cases ts with
  | nil => exact fun c hc => nomatch hc
  | cons t ts => exact fun c hc => (Option.some.inj hc).symm

/-- A part up to its slash, found at the start of another part, is that part. -/
lemma part_eq_of_prefix {b k x y : Bytes} (hb : Plain b) (hk : Plain k) (hy : Stops y)
    (h : b ++ 47 :: x <+: k ++ y) : b = k ∧ 47 :: x <+: y := by
  induction b generalizing k with
  | nil =>
    cases k with
    | nil => exact ⟨rfl, h⟩
    | cons c k =>
      have hc : 47 = c := (cons_prefix_cons.mp h).1
      exact absurd (hc ▸ mem_cons_self) hk
  | cons c b ih =>
    cases k with
    | nil =>
      -- the other part is over, so that a slash would have to stand in this one
      cases y with
      | nil => exact absurd (prefix_nil.mp h) (by simp)
      | cons d y =>
        have hcd : c = d := (cons_prefix_cons.mp h).1
        have hd : d = 47 := hy d rfl
        exact absurd (hcd.trans hd ▸ mem_cons_self) hb
    | cons d k =>
      obtain ⟨hcd, hTail⟩ := cons_prefix_cons.mp h
      obtain ⟨hEq, hRest⟩ := ih (fun hMem => hb (mem_cons_of_mem c hMem))
        (fun hMem => hk (mem_cons_of_mem d hMem)) hTail
      exact ⟨by rw [hcd, hEq], hRest⟩

/-- **A path and a slash as the start of a path.** -/
theorem render_prefix_iff (hbs : ∀ b ∈ bs, Plain b) (hks : ∀ k ∈ ks, Plain k) :
    render bs ++ [47] <+: render ks ↔ bs <+: ks ∧ bs ≠ ks := by
  induction bs generalizing ks with
  | nil =>
    cases ks with
    | nil => simp
    | cons k ks => simp
  | cons b bs ih =>
    cases ks with
    | nil => simp
    | cons k ks =>
      have hb := hbs b mem_cons_self
      have hk := hks k mem_cons_self
      have hIh := ih (fun c hc => hbs c (mem_cons_of_mem b hc))
        (fun c hc => hks c (mem_cons_of_mem k hc))
      have hSlash : ∃ x, render bs ++ [47] = 47 :: x := by
        cases bs with
        | nil => exact ⟨[], rfl⟩
        | cons c cs => exact ⟨_, rfl⟩
      obtain ⟨x, hx⟩ := hSlash
      rw [render_cons, render_cons, cons_append, cons_prefix_cons, append_assoc, cons_prefix_cons, hx]
      rw [hx] at hIh
      constructor
      · rintro ⟨-, h⟩
        obtain ⟨hEq, hRest⟩ := part_eq_of_prefix hb hk (stops_render ks) h
        obtain ⟨hPrefix, hNe⟩ := hIh.mp hRest
        exact ⟨⟨hEq, hPrefix⟩, fun hSame => hNe (cons.inj hSame).2⟩
      · rintro ⟨⟨rfl, hPrefix⟩, hNe⟩
        refine ⟨rfl, (prefix_append_right_inj b).mpr (hIh.mpr ⟨hPrefix, fun hSame => hNe ?_⟩)⟩
        rw [hSame]

/-! ## What is left below a prefix -/

lemma trimText_render (bs : List Bytes) (u : Bytes) (us : List Bytes) :
    trimText (render (bs ++ u :: us)) (render bs ++ [47]) = u ++ render us := by
  have hSplit : render (bs ++ u :: us) = (render bs ++ [47]) ++ (u ++ render us) := by
    rw [render_append, render_cons, append_assoc]
    rfl
  rw [trimText, hSplit, if_pos (prefix_append _ _), drop_left]

/-- A prefix with an empty part in it begins no clean path. -/
lemma trimText_of_nil_mem (hbs : ∀ b ∈ bs, Plain b) (hks : ∀ k ∈ ks, Plain k) (hNil : [] ∈ bs)
    (hClean : [] ∉ ks) : trimText (render ks) (render bs ++ [47]) = render ks := by
  refine if_neg fun hPrefix => ?_
  exact hClean (((render_prefix_iff hbs hks).mp hPrefix).1.mem hNil)

lemma cutSlash_of_plain (h : Plain t) : cutSlash t = none := by
  induction t with
  | nil => rfl
  | cons c t ih =>
    obtain ⟨hc, ht⟩ := plain_cons.mp h
    rw [cutSlash, if_neg hc, ih ht, Option.map_none]

lemma cutSlash_append (h : Plain t) (s : Bytes) : cutSlash (t ++ 47 :: s) = some (t, s) := by
  induction t with
  | nil => rfl
  | cons c t ih =>
    obtain ⟨hc, ht⟩ := plain_cons.mp h
    rw [cons_append, cutSlash, if_neg hc, ih ht, Option.map_some]

lemma lastSegment_render (hs : ∀ u ∈ ts ++ [t], Plain u) : lastSegment (render (ts ++ [t])) = t := by
  cases ts with
  | nil =>
    rw [lastSegment, nil_append, split_render hs]
    rfl
  | cons u us =>
    rw [cons_append] at hs ⊢
    rw [lastSegment, split_render hs]
    show (([] :: u :: us) ++ [t]).getLastD [] = t
    rw [getLastD_concat]

end RedGeo.Lib
