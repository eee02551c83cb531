import Tomtel.Proofs.Tiling

/-!
# Listings page by page

A listing may be cut behind any of its rows and taken up at the address there: `exists_page`. So
what a listing shows from a row on depends on the address of the row only, and two listings to the
end of memory that come to the same address go on in the same way: `listing_paged`.
-/

namespace Tomtel

namespace Memory

variable {memory : Memory} {layout : ImmediateLayout} {start : UInt32} {addr stop : Nat}
  {row : Row} {rows : List Row}

theorem listing_of_ge (h : memory.size ≤ start.toNat) (count : Nat) :
    memory.listing layout start count = #[] := by
  cases count with
  | zero => rfl
  | succ count => rw [listing_succ, row?_of_ge h]

theorem toList_listing_of_ge (h : memory.size ≤ start.toNat) (count : Nat) :
    (memory.listing layout start count).toList = [] := by
  rw [listing_of_ge h]

/-- A listing that has shown `m` rows goes on where they end. -/
theorem exists_page (hsize : memory.size < 2 ^ 32) (layout : ImmediateLayout) (start : UInt32)
    (m : Nat) :
    ∃ next : UInt32, memory.Tiles start.toNat (memory.listing layout start m).toList next.toNat ∧
      ∀ n, memory.listing layout start (m + n) =
        memory.listing layout start m ++ memory.listing layout next n := by
  induction m generalizing start with
  | zero =>
    refine ⟨start, rfl, fun n => ?_⟩
    rw [Nat.zero_add, listing_zero, Array.empty_append]
  | succ m ih =>
    rcases hrow : memory.row? layout start with _ | row
    · -- nothing to list at `start`: the page is empty, and so is what follows
      have hge := row?_eq_none_iff.1 hrow
      refine ⟨start, ?_, fun n => ?_⟩
      · rw [toList_listing_of_ge hge]
        rfl
      · simp only [listing_of_ge hge, Array.empty_append]
    · obtain ⟨rfl, hshows, -⟩ := shows_of_row? hrow
      obtain ⟨next, hnext, hlisting⟩ := listing_succ_of_row? hsize hrow
      obtain ⟨stop, htiles, hpage⟩ := ih next
      refine ⟨stop, ?_, fun n => Array.toList_inj.1 ?_⟩
      · rw [hlisting]
        exact ⟨rfl, hshows, hnext ▸ htiles⟩
      · rw [Nat.add_right_comm, Array.toList_append, hlisting, hlisting, hpage, Array.toList_append]
        rfl

theorem Tiles.add_le_addr (h : memory.Tiles addr rows stop) {k : Nat} (hrow : rows[k]? = some row) :
    addr + k ≤ row.addr.toNat := by
  induction rows generalizing addr k with
  | nil => simp at hrow
  | cons first rows ih =>
    obtain ⟨haddr, hfirst, hrows⟩ := h
    rcases k with _ | k
    · obtain rfl : first = row := by simpa using hrow
      omega
    · have hle := ih hrows (by simpa using hrow)
      have hpos := hfirst.pos
      omega

/-- From any of its rows on, a listing is the listing from the address of the row. -/
theorem drop_listing (hsize : memory.size < 2 ^ 32) {count k : Nat}
    (hrow : (memory.listing layout start count).toList[k]? = some row) :
    (memory.listing layout start count).toList.drop k =
      (memory.listing layout row.addr (count - k)).toList := by
  induction k generalizing start count with
  | zero =>
    obtain ⟨stop, htiles, -⟩ := tiles_listing hsize layout start count
    rw [List.drop_zero, Nat.sub_zero, UInt32.toNat_inj.1 (htiles.head_addr hrow)]
  | succ k ih =>
    rcases count with _ | count
    · simp [listing_zero] at hrow
    · rcases hfirst : memory.row? layout start with _ | first
      · simp [toList_listing_of_ge (row?_eq_none_iff.1 hfirst)] at hrow
      · obtain ⟨next, -, hlisting⟩ := listing_succ_of_row? hsize hfirst
        rw [hlisting, List.getElem?_cons_succ] at hrow
        rw [hlisting, List.drop_succ_cons, Nat.add_sub_add_right]
        exact ih hrow

/-- Once a listing may reach the end of memory, it does not matter how many rows it may have. -/
theorem listing_congr_count (hsize : memory.size < 2 ^ 32) {m n : Nat}
    (hm : memory.size ≤ start.toNat + m) (hn : memory.size ≤ start.toNat + n) :
    (memory.listing layout start m).toList = (memory.listing layout start n).toList := by
  induction m generalizing start n with
  | zero => rw [toList_listing_of_ge hm, toList_listing_of_ge hm]
  | succ m ih =>
    rcases hrow : memory.row? layout start with _ | row
    · have hge := row?_eq_none_iff.1 hrow
      rw [toList_listing_of_ge hge, toList_listing_of_ge hge]
    · have hpos := (shows_of_row? hrow).2.1.pos
      obtain ⟨next, hnext, hlisting⟩ := listing_succ_of_row? hsize hrow
      rcases n with _ | n
      · rw [toList_listing_of_ge hn, toList_listing_of_ge hn]
      · have hm' : memory.size ≤ next.toNat + m := by omega
        have hn' : memory.size ≤ next.toNat + n := by omega
        rw [hlisting, hlisting, ih hm' hn']

/-- A listing of `m + n` rows is a listing of `m` rows and then one of `n` rows from the address
behind them, be it in a region of illegal bytes or at the end of memory. So two listings from
different starts, each of as many rows as memory has bytes at least, are the same from a row on that
stands at the same address in both. -/
theorem listing_paged (hsize : memory.size < 2 ^ 32) (layout : ImmediateLayout) :
    (∀ (start : UInt32) (m : Nat), ∃ next : UInt32,
      (memory.listing layout start m = #[] → next = start) ∧
      (∀ last, (memory.listing layout start m).back? = some last →
        next.toNat = last.addr.toNat + last.bytes.length) ∧
      ∀ n, memory.listing layout start (m + n) =
        memory.listing layout start m ++ memory.listing layout next n) ∧
    ∀ (start start' : UInt32) (count count' : Nat), memory.size ≤ count → memory.size ≤ count' →
      let rows := (memory.listing layout start count).toList
      let rows' := (memory.listing layout start' count').toList
      ∀ k k' row row', rows[k]? = some row → rows'[k']? = some row' → row.addr = row'.addr →
        rows.drop k = rows'.drop k' := by
  constructor
  · intro start m
    obtain ⟨next, htiles, hpage⟩ := exists_page hsize layout start m
    refine ⟨next, fun hempty => ?_, fun last hlast => ?_, hpage⟩
    · rw [hempty] at htiles
      exact UInt32.toNat_inj.1 (Eq.symm htiles)
    · rw [← Array.getLast?_toList] at hlast
      exact (htiles.last_end hlast).symm
  · intro start start' count count' hcount hcount' rows rows' k k' row row' hrow hrow' haddr
    -- a row at index `k` stands `k` bytes behind the start at least, so the rest reaches the end
    have hrest : ∀ {start : UInt32} {count k : Nat} {row : Row}, memory.size ≤ count →
        (memory.listing layout start count).toList[k]? = some row →
        memory.size ≤ row.addr.toNat + (count - k) := by
      intro start count k row hcount hrow
      obtain ⟨stop, htiles, -⟩ := tiles_listing hsize layout start count
      have hle := htiles.add_le_addr hrow
      omega
    have h := hrest hcount hrow
    have h' := hrest hcount' hrow'
    rw [drop_listing hsize hrow, drop_listing hsize hrow', haddr]
    rw [haddr] at h
    exact listing_congr_count hsize h h'

/-- A cut in front of illegal bytes, and a listing that starts inside the instruction before them. -/
theorem listing_paged_insideInstruction :
    let memory : Memory := ⟨#[0x48, 0x41, 0xff, 0x21, 0x05]⟩
    let rows := (memory.listing .littleEndian 0 5).toList
    let rows' := (memory.listing .littleEndian 1 9).toList
    memory.size < 2 ^ 32 ∧ memory.size ≤ 5 ∧ memory.size ≤ 9 ∧
      memory.listing .littleEndian 0 (1 + 9) =
        memory.listing .littleEndian 0 1 ++ memory.listing .littleEndian 2 9 ∧
      rows.map Row.addr = [0, 2, 3, 4] ∧ rows'.map Row.addr = [1, 2, 3, 4] ∧
      rows.drop 1 = rows'.drop 1 := by
  intro memory rows rows'
  have hsize : memory.size < 2 ^ 32 := by decide
  obtain ⟨hpage, hshared⟩ := listing_paged hsize .littleEndian
  obtain ⟨next, -, hnext, hcut⟩ := hpage 0 1
  have hlast : (memory.listing .littleEndian 0 1).back? =
      some (Row.ofInstruction 0 [0x48, 0x41] (.mvi (.register .a) 0x41)) := by decide
  obtain rfl : next = 2 := UInt32.toNat_inj.1 (hnext _ hlast)
  have hrow : rows[1]? = some (Row.ofByte 2 0xff) := by decide
  have hrow' : rows'[1]? = some (Row.ofByte 2 0xff) := by decide
  exact ⟨hsize, by decide, by decide, hcut 9, by decide, by decide,
    hshared 0 1 5 9 (by decide) (by decide) 1 1 _ _ hrow hrow' rfl⟩

end Memory

end Tomtel
