import TableTree.Proofs.Calls

/-!
# The order of creation

What a call creates comes after its ancestors, so that a call that fails half way leaves no live
path without them.

Results:

* `Listing.Fits`: a listing of live entries directly below its path.
* `Listing.Fits.ancestorsFirst_stored`: a listing, stored with what is missing above it.
* `Call.ancestorsFirst_put`, `Call.ancestorsFirst_putAll`, `Call.ancestorsFirst_putListing`: the
  entries of these calls have ancestors first.
-/

namespace TableTree

/-- The entries of a listing are live and lie directly below its path. -/
def Listing.Fits (l : Listing) : Prop :=
  ∀ e ∈ l.entries, e.isLive = true ∧ e.path.parent? = some l.path

/-- The ancestors of what a listing has are its path and the ancestors of that. -/
theorem Path.mem_ancestors_of_parent? {p path q : Path} (h : p.parent? = some path) :
    q ∈ p.ancestors ↔ path.isRoot = false ∧ (q = path ∨ q ∈ path.ancestors) := by
  obtain ⟨s, rfl⟩ := parent?_eq_some_iff.1 h
  exact mem_ancestors_below

namespace Listing

variable {owner : String} {known : Path → Prop} {l : Listing} {qs : List Path}

/-- What is stored of a listing: its directory with stand-ins for paths above it, and its entries. -/
def stored (l : Listing) (owner : String) (qs : List Path) : List Entry :=
  (l.directory owner).withStandIns owner qs ++ l.entries.filter fun e => !e.path.isRoot

theorem Fits.isLive_of_mem_stored (hl : l.Fits) {e : Entry} (he : e ∈ l.stored owner qs) :
    e.isLive = true := by
  rcases List.mem_append.1 he with he | he
  · exact Entry.isLive_of_mem_withStandIns rfl he
  · exact (hl e (List.mem_filter.1 he).1).1

theorem isRoot_of_mem_stored (h : KnownBeyond known l.path.ancestors qs) {e : Entry}
    (he : e ∈ l.stored owner qs) : e.path.isRoot = false := by
  rcases List.mem_append.1 he with he | he
  · exact Entry.isRoot_of_mem_withStandIns (e := l.directory owner) h he
  · simpa using (List.mem_filter.1 he).2

/-- With stand-ins for its nearest ancestors, a listing comes after all of them if the others are
known. -/
theorem Fits.ancestorsFirst_stored (hl : l.Fits) (h : KnownBeyond known l.path.ancestors qs) :
    AncestorsFirst known (l.stored owner qs) := by
  have hdir : (l.directory owner).isLive = true := rfl
  refine (Entry.ancestorsFirst_withStandIns (e := l.directory owner) h).append
    (.of_forall (fun e he => (hl e (List.mem_filter.1 he).1).1) fun e he q hq => ?_)
  rw [Entry.foldl_mark_iff fun d hd => Entry.isLive_of_mem_withStandIns hdir hd,
    Entry.exists_mem_withStandIns]
  obtain ⟨hr, rfl | hq⟩ :=
    (Path.mem_ancestors_of_parent? (hl e (List.mem_filter.1 he).1).2).1 hq
  · exact .inr (.inr ⟨hr, rfl⟩)
  · exact (h.or_mem hq).imp id .inl

end Listing

namespace Call

variable {owner : String} {items : Items} {now : Int64}

theorem ancestorsFirst_put (hup : UpClosed items.IsLive) (e : Entry) :
    AncestorsFirst items.IsLive ((Call.put e).entries owner items now) :=
  Items.ancestorsFirst_withMissing hup e

theorem ancestorsFirst_putAll {es : List Entry} (hes : ∀ e ∈ es, e.isLive = true) :
    AncestorsFirst items.IsLive ((Call.putAll es).entries owner items now) :=
  Entry.ancestorsFirst_withAncestors hes

theorem ancestorsFirst_putListing (hup : UpClosed items.IsLive) {l : Listing} (hl : l.Fits) :
    AncestorsFirst items.IsLive ((Call.putListing l).entries owner items now) := by
  exact ancestorsFirst_keepLast (hl.ancestorsFirst_stored (Items.knownBeyond_lacking hup l.path))
    fun _ => hl.isLive_of_mem_stored

end Call

end TableTree
