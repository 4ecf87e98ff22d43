import Mathlib.Data.List.Induction
import TableTree.Proofs.Path.Codec

/-!
# The texts of a path

A path is spelled by its bucket and parts with slashes between. The parts are read from left to right:
empty parts and parts `.` are left out, a part `..` takes back the name kept last, and what is left are
the names of the path. A text is read as a path exactly if it is the scheme and something that spells
the path. So a path may be written in many ways, of which the printed form is one.

Results:

* `Path.Reduces`, `Path.reduces_iff`: the names that parts reduce to are those of their normal form.
* `Path.IsSpelled`, `Path.isSpelled_iff`: what spells a path, by the parts of a text.
* `Path.exists_isSpelled_iff`: what starts with no slash spells a path.
* `Path.read?_eq_ok_iff`, `Path.read?_text`: which texts are read as a path; the printed form is one.
* `Path.reads_exactly`: which texts are read, as what, and that the printed form stands for them.
-/

namespace TableTree.Path

/-! ## Reducing parts to names -/

/-- The names that are left of a list of parts, read from left to right. -/
inductive Reduces : List String → List String → Prop
  | nil : Reduces [] []
  /-- an empty part or a part `.` changes nothing -/
  | skip {parts names : List String} {part : String} (h : Reduces parts names)
      (hpart : part = "" ∨ part = ".") : Reduces (parts ++ [part]) names
  /-- a part `..` takes back the name kept last, if there is one -/
  | up {parts names : List String} (h : Reduces parts names) :
      Reduces (parts ++ [".."]) names.dropLast
  /-- any other part is kept -/
  | keep {parts names : List String} {part : String} (h : Reduces parts names)
      (hpart : part ≠ "" ∧ part ≠ "." ∧ part ≠ "..") : Reduces (parts ++ [part]) (names ++ [part])

/-- A part without a slash is left out, takes a name back, or is a name. -/
theorem part_cases {part : String} (h : '/' ∉ part.toList) :
    (part = "" ∨ part = ".") ∨ part = ".." ∨ IsSegment part := by
  by_cases hskip : part = "" ∨ part = "."
  · exact .inl hskip
  · rw [not_or] at hskip
    by_cases hup : part = ".."
    · exact .inr (.inl hup)
    · exact .inr (.inr ⟨hskip.1, hskip.2, hup, h⟩)

theorem normalise_concat (parts : List String) (part : String) :
    normalise (parts ++ [part]) = addPart (normalise parts) part := by
  rw [normalise, List.foldl_append]
  rfl

theorem addPart_of_skip {part : String} (h : part = "" ∨ part = ".") (sofar : List Segment) :
    addPart sofar part = sofar := by
  rcases h with rfl | rfl <;> rfl

theorem addPart_up (sofar : List Segment) : addPart sofar ".." = sofar.dropLast := rfl

/-- Parts without slashes reduce to the names of their normal form. -/
theorem reduces_normalise {parts : List String} (h : ∀ part ∈ parts, '/' ∉ part.toList) :
    Reduces parts ((normalise parts).map Subtype.val) := by
  induction parts using List.reverseRecOn with
  | nil => exact .nil
  | append_singleton parts part ih =>
    simp only [List.mem_append, List.mem_singleton] at h
    have ih := ih fun x hx => h x (.inl hx)
    rw [normalise_concat]
    obtain hskip | rfl | hsegment := part_cases (h part (.inr rfl))
    · rw [addPart_of_skip hskip]
      exact ih.skip hskip
    · rw [addPart_up, List.map_dropLast]
      exact ih.up
    · have hadd := addPart_segment (normalise parts) ⟨part, hsegment⟩
      rw [hadd, List.map_append]
      exact ih.keep ⟨hsegment.1, hsegment.2.1, hsegment.2.2.1⟩

/-- Parts without slashes reduce to nothing else. -/
theorem Reduces.eq_normalise {parts names : List String} (hr : Reduces parts names)
    (h : ∀ part ∈ parts, '/' ∉ part.toList) : names = (normalise parts).map Subtype.val := by
  induction hr with
  | nil => rfl
  | skip _ hskip ih =>
    simp only [List.mem_append] at h
    rw [normalise_concat, addPart_of_skip hskip]
    exact ih fun x hx => h x (.inl hx)
  | up _ ih =>
    simp only [List.mem_append] at h
    rw [normalise_concat, addPart_up, List.map_dropLast, ← ih fun x hx => h x (.inl hx)]
  | @keep parts names part _ hkeep ih =>
    simp only [List.mem_append, List.mem_singleton] at h
    have hsegment : IsSegment part := ⟨hkeep.1, hkeep.2.1, hkeep.2.2, h part (.inr rfl)⟩
    have hadd := addPart_segment (normalise parts) ⟨part, hsegment⟩
    rw [normalise_concat, hadd, List.map_append, ← ih fun x hx => h x (.inl hx)]
    rfl

theorem reduces_iff {parts : List String} (h : ∀ part ∈ parts, '/' ∉ part.toList) {p : Path} :
    Reduces parts p.names ↔ normalise parts = p.segments := by
  constructor
  · intro hr
    exact ((List.map_inj_right fun _ _ => Subtype.ext).1 (hr.eq_normalise h)).symm
  · intro hn
    rw [names, ← hn]
    exact reduces_normalise h

/-! ## Texts that spell a path -/

/-- A text spells a path if it is the bucket and parts that reduce to the names, with slashes
between. -/
def IsSpelled (p : Path) (t : String) : Prop :=
  ∃ parts, (∀ part ∈ parts, '/' ∉ part.toList) ∧ Reduces parts p.names ∧
    t = "/".intercalate (p.bucket.val :: parts)

/-- A text spells the path that its first part and the normal form of the others make. -/
theorem isSpelled_iff {t : String} {p : Path} :
    p.IsSpelled t ↔ ∃ rest, parts t.toList = p.bucket.val :: rest ∧ normalise rest = p.segments := by
  constructor
  · rintro ⟨rest, hfree, hr, rfl⟩
    refine ⟨rest, parts_intercalate (List.cons_ne_nil _ _) ?_, (reduces_iff hfree).1 hr⟩
    exact List.forall_mem_cons.2 ⟨p.bucket.property.2, hfree⟩
  · rintro ⟨rest, hparts, hn⟩
    have hfree : ∀ part ∈ rest, '/' ∉ part.toList := by
      intro part hpart
      exact not_mem_of_mem_parts (hparts ▸ List.mem_cons_of_mem _ hpart)
    exact ⟨rest, hfree, (reduces_iff hfree).2 hn, by rw [← hparts, intercalate_parts]⟩

/-- The first part of a text ends where its first slash stands, and the normal form of the others is
that of what starts there. -/
theorem exists_parts_eq (s : List Char) : ∃ rest,
    parts s = String.ofList (s.takeWhile (· ≠ '/')) :: rest ∧
      normalise (parts (s.dropWhile (· ≠ '/'))) = normalise rest := by
  obtain ⟨rest, hfirst, hrest⟩ := Text.exists_fields_eq '/' s
  refine ⟨rest.map String.ofList, by rw [parts, hfirst, List.map_cons], ?_⟩
  -- the empty part before the slash is left out
  rw [parts, hrest, List.map_cons]
  rfl

/-- A text has a bucket before its first slash unless it starts with the slash. -/
theorem isBucket_takeWhile_iff {s : List Char} :
    IsBucket (String.ofList (s.takeWhile (· ≠ '/'))) ↔ ∃ c rest, c ≠ '/' ∧ s = c :: rest := by
  have hfree : '/' ∉ (String.ofList (s.takeWhile (· ≠ '/'))).toList := by
    rw [String.toList_ofList]
    intro h
    simpa using List.all_eq_true.1 List.all_takeWhile _ h
  rw [IsBucket, and_iff_left hfree]
  cases s with
  | nil => simp
  | cons c rest => by_cases hc : c = '/' <;> simp [hc]

/-- Anything that starts with a character other than a slash spells a path, and nothing else does. -/
theorem exists_isSpelled_iff {t : String} :
    (∃ p : Path, p.IsSpelled t) ↔ ∃ c rest, c ≠ '/' ∧ t.toList = c :: rest := by
  obtain ⟨rest, hparts, -⟩ := exists_parts_eq t.toList
  rw [← isBucket_takeWhile_iff]
  constructor
  · rintro ⟨p, hp⟩
    obtain ⟨rest', hparts', -⟩ := isSpelled_iff.1 hp
    rw [hparts] at hparts'
    rw [(List.cons.inj hparts').1]
    exact p.bucket.property
  · intro hbucket
    exact ⟨⟨⟨_, hbucket⟩, normalise rest⟩, isSpelled_iff.2 ⟨rest, hparts, rfl⟩⟩

/-- A path is spelled by its bucket and its names, with a slash after the bucket. -/
theorem isSpelled_text (p : Path) :
    p.IsSpelled (p.bucket.val ++ "/" ++ "/".intercalate p.names) := by
  have hparts : parts (p.bucket.val ++ "/" ++ "/".intercalate p.names).toList =
      p.bucket.val :: parts ("/".intercalate p.names).toList := by
    have hcut := Text.fields_append_cons p.bucket.property.2 ("/".intercalate p.names).toList
    have hlist : (p.bucket.val ++ "/" ++ "/".intercalate p.names).toList =
        p.bucket.val.toList ++ '/' :: ("/".intercalate p.names).toList := by
      simp [String.toList_append]
    rw [hlist, parts, hcut, List.map_cons, String.ofList_toList, parts]
  refine isSpelled_iff.2 ⟨_, hparts, ?_⟩
  by_cases hnames : p.names = []
  · -- behind the slash of a root there is one empty part
    have hsegments : p.segments = [] := List.map_eq_nil_iff.1 hnames
    rw [hnames, hsegments]
    rfl
  · rw [parts_intercalate hnames p.not_mem_of_mem_names, normalise_names]

/-! ## Reading -/

/-- What is read after the scheme is the path that is spelled there. -/
theorem read?_scheme_iff {t : String} {p : Path} :
    read? (scheme ++ "://" ++ t) = .ok p ↔ p.IsSpelled t := by
  have hcut : Text.cutAt "://".toList (scheme ++ "://" ++ t).toList =
      some (scheme.toList, t.toList) := by
    rw [String.toList_append, String.toList_append]
    exact Text.cutAt_append (by decide) t.toList
  have hbefore : scheme.toList ≠ [] := by decide
  obtain ⟨rest, hparts, hn⟩ := exists_parts_eq t.toList
  rw [isSpelled_iff, hparts, read?, hcut]
  simp only [String.ofList_toList, ne_eq, not_true_eq_false, if_false, hbefore, hn,
    List.cons.injEq, ← Bucket.ofString?_eq_some_iff]
  generalize Bucket.ofString? (String.ofList (t.toList.takeWhile _)) = bucket
  cases bucket with
  | none => simp
  | some bucket => simp [Path.ext_iff]

/-- Only what starts with the scheme is read. -/
theorem exists_of_read? {s : String} {p : Path} (h : read? s = .ok p) :
    ∃ t, s = scheme ++ "://" ++ t := by
  unfold read? at h
  split at h
  · cases h
  · rename_i before after hcut
    split at h
    · cases h
    · split at h
      · cases h
      · rename_i hscheme
        have hs := Text.eq_of_cutAt hcut
        refine ⟨String.ofList after, ?_⟩
        rw [← not_ne_iff.1 hscheme, ← String.toList_inj, hs]
        simp

theorem read?_eq_ok_iff {s : String} {p : Path} :
    read? s = .ok p ↔ ∃ t, s = scheme ++ "://" ++ t ∧ p.IsSpelled t := by
  constructor
  · intro h
    obtain ⟨t, rfl⟩ := exists_of_read? h
    exact ⟨t, rfl, read?_scheme_iff.1 h⟩
  · rintro ⟨t, rfl, h⟩
    exact read?_scheme_iff.2 h

/-- The printed form is read back. -/
theorem read?_text (p : Path) : read? p.text = .ok p := by
  have htext : p.text = scheme ++ "://" ++ (p.bucket.val ++ "/" ++ "/".intercalate p.names) := by
    simp only [text, String.append_assoc]
  rw [htext]
  exact read?_scheme_iff.2 p.isSpelled_text

/-- **Reading paths.** A text is read exactly if it is the scheme, `://` and a character other than a
slash with anything behind it. What is read has the text up to the next slash for its bucket, and the
other parts reduce to its names. The printed form of a path is read as the path, so different paths
have different printed forms, and reading what was read and printed gives the same again. -/
theorem reads_exactly (s : String) (p q : Path) :
    ((∃ p, read? s = .ok p) ↔
      ∃ c rest, c ≠ '/' ∧ s = scheme ++ "://" ++ String.ofList (c :: rest)) ∧
    (read? s = .ok p ↔ ∃ t, s = scheme ++ "://" ++ t ∧ p.IsSpelled t) ∧
    read? p.text = .ok p ∧ (p.text = q.text ↔ p = q) ∧
    (read? s >>= fun p => read? p.text) = read? s := by
  have hread (p : Path) : read? p.text = .ok p := p.read?_text
  refine ⟨?_, read?_eq_ok_iff, hread p, ⟨fun h => ?_, congrArg text⟩, ?_⟩
  · simp only [read?_eq_ok_iff]
    constructor
    · rintro ⟨p, t, rfl, hp⟩
      obtain ⟨c, rest, hc, ht⟩ := exists_isSpelled_iff.1 ⟨p, hp⟩
      exact ⟨c, rest, hc, by rw [← ht, String.ofList_toList]⟩
    · rintro ⟨c, rest, hc, rfl⟩
      obtain ⟨p, hp⟩ := exists_isSpelled_iff.2 ⟨c, rest, hc, String.toList_ofList⟩
      exact ⟨p, _, rfl, hp⟩
  · have hq := hread q
    rw [← h, hread p] at hq
    exact Except.ok.inj hq
  · cases read? s with
    | error fault => rfl
    | ok p => exact hread p

example : (read? "s3a://b/../a//./c/../d://e/").toOption.map text = some "s3a://b/a/d:/e" := by
  decide

end TableTree.Path
