import Mathlib.Data.Prod.Lex
import GumServer.Create
import GumServer.I64
import GumServer.Paging

/-!
# Listing deposits

`GET /v1/deposit`: the query of `deposit/routes.rs` and the statement of `deposit/store.rs` it is
turned into. The rows of a user that match, newest first, and a cursor for the next page: the
creation time and the id of the last row, as text.

A page starts strictly below its cursor in `(created_at, id)`, so rows created in the same
microsecond are told apart by their ids, and following the cursors is keyset paging
(`listing_pages`).
-/

namespace GumServer

open Checks

/-- `DepositStatus::parse`. -/
def DepositStatus.parse (raw : String) : Option DepositStatus :=
  if raw = "pending" then some .pending
  else if raw = "partial_paid" then some .partialPaid
  else if raw = "paid" then some .paid
  else if raw = "settled" then some .settled
  else if raw = "failed" then some .failed
  else if raw = "expired" then some .expired
  else none

/-! ## Cursors -/

/-- `Cursor`: a place in `(created_at DESC, id DESC)`. -/
structure Cursor where
  createdAt : DateTime
  id : Uuid
deriving DecidableEq

namespace Cursor

/-- `Cursor::encode`. -/
def encode (c : Cursor) : String := toString c.createdAt.toMicros ++ "_" ++ c.id.text

/-- `Cursor::decode`, over the parser of ids. -/
def decode (parseUuid : String → Option Uuid) (raw : String) : Option Cursor := do
  let (micros, id) ← splitOnce '_' raw.toList
  let micros ← I64.parse micros
  let createdAt ← DateTime.ofMicros micros.val
  let id ← parseUuid (String.ofList id)
  some ⟨createdAt, id⟩

/-- The columns a cursor is compared with. -/
def place (c : Cursor) : ℤ ×ₗ Uuid := toLex (c.createdAt.toMicros, c.id)

end Cursor

/-- The columns rows are listed by. -/
def Deposit.place (d : Deposit) : ℤ ×ₗ Uuid := toLex (d.createdAt.toMicros, d.id)

/-! ## The statement -/

/-- `ListFilter`. -/
structure ListFilter where
  status : Option DepositStatus
  chainId : Option ℤ
  token : Option String
  reference : Option String
  paymentAddress : Option String
  receiver : Option String
  createdAfter : Option DateTime
  createdBefore : Option DateTime
  cursor : Option Cursor
  limit : ℤ

/-- The `WHERE` clause, up to the cursor. -/
def ListFilter.admits (filter : ListFilter) (userId : String) (d : Deposit) : Bool :=
  d.userId == userId &&
  filter.status.all (fun status => d.status == status) &&
  filter.chainId.all (fun chainId => d.chainId == chainId) &&
  filter.token.all (fun token => d.tokenSymbol == toAsciiUppercase token) &&
  filter.reference.all (fun reference => d.reference == some (toAsciiLowercase reference)) &&
  filter.paymentAddress.all (fun address => d.paymentAddress == toAsciiLowercase address) &&
  filter.receiver.all (fun receiver => d.receiver == toAsciiLowercase receiver) &&
  filter.createdAfter.all (fun after => decide (after.toMicros ≤ d.createdAt.toMicros)) &&
  filter.createdBefore.all (fun before => decide (d.createdAt.toMicros < before.toMicros))

/-- `Page`. -/
structure DepositPage where
  items : List Deposit
  nextCursor : Option String

/-- `list`. -/
def list (rows : List Deposit) (userId : String) (filter : ListFilter) : DepositPage :=
  let selected := rows.filter fun d =>
    filter.admits userId d && filter.cursor.all fun c => decide (d.place < c.place)
  -- ORDER BY created_at DESC, id DESC
  let ordered := selected.mergeSort fun a b => decide (b.place ≤ a.place)
  let items := ordered.take (filter.limit + 1).toNat
  if (items.length : ℤ) > filter.limit then
    let items := items.take filter.limit.toNat
    ⟨items, items.getLast?.map fun d => Cursor.encode ⟨d.createdAt, d.id⟩⟩
  else ⟨items, none⟩

/-! ## The query -/

/-- `DEFAULT_PAGE`. -/
def DEFAULT_PAGE : ℤ := 50

/-- `MAX_PAGE`. -/
def MAX_PAGE : ℤ := 200

/-- `ListQuery`. -/
structure ListQuery where
  status : Option String
  chainId : Option String
  token : Option String
  reference : Option String
  paymentAddress : Option String
  receiver : Option String
  createdAfter : Option DateTime
  createdBefore : Option DateTime
  cursor : Option String
  limit : Option ℤ

/-- A field that is absent, blank, or read. -/
def readField {α : Type} (field : Option String) (read : String → Option α) (refusal : String) :
    Except ApiError (Option α) :=
  match presentText field with
  | none => .ok none
  | some raw => (okOr (read raw) (.invalid refusal)).map some

section Query

variable (parseUuid : String → Option Uuid) (registry : Registry)

/-- `ListQuery::into_filter`. -/
def ListQuery.intoFilter (query : ListQuery) : Except ApiError ListFilter := do
  let status ← readField query.status DepositStatus.parse
    "status must be one of pending, partial_paid, paid, settled, failed, expired"
  let chainId ← readField query.chainId (fun raw => (registry.chain raw).map (·.chainId.toI64))
    "unsupported chain_id"
  let limit := query.limit.getD DEFAULT_PAGE
  refuseIf (!(decide (1 ≤ limit) && decide (limit ≤ MAX_PAGE)))
    (.invalid ("limit must be between 1 and " ++ toString MAX_PAGE))
  let cursor ← readField query.cursor (Cursor.decode parseUuid) "invalid cursor"
  pure {
    status, chainId, cursor, limit
    token := presentText query.token
    reference := presentText query.reference
    paymentAddress := presentText query.paymentAddress
    receiver := presentText query.receiver
    createdAfter := query.createdAfter
    createdBefore := query.createdBefore }

/-- The listing of a query with a cursor, up to the views of its rows. -/
def listPage (rows : List Deposit) (userId : String) (query : ListQuery) (cursor : Option String) :
    Except ApiError (List Deposit × Option String) := do
  let filter ← { query with cursor := cursor }.intoFilter parseUuid registry
  let page := list rows userId filter
  pure (page.items, page.nextCursor)

end Query

/-! ## Cursors are read back -/

/-- A time as the database keeps it: a count of microseconds. -/
def Stored (t : DateTime) : Prop := ∃ micros, DateTime.ofMicros micros = some t

theorem Stored.ofMicros_toMicros {t : DateTime} (h : Stored t) :
    DateTime.ofMicros t.toMicros = some t := by
  obtain ⟨micros, hmicros⟩ := h
  have hcount : t.toMicros = micros := by
    rw [DateTime.ofMicros, DateTime.fromTimestamp] at hmicros
    split at hmicros
    · cases hmicros
      simp only [DateTime.toMicros]
      omega
    · cases hmicros
  rw [hcount, hmicros]

theorem DateTime.inI64_toMicros (t : DateTime) : InI64 t.toMicros := by
  obtain ⟨hmin, hmax⟩ := t.inRange
  have hnanos := t.nanos_lt
  rw [MIN_SECS] at hmin
  rw [MAX_SECS] at hmax
  rw [InI64, DateTime.toMicros]
  omega

theorem underscore_not_mem_toString (n : ℤ) : '_' ∉ (toString n).toList := by
  have hdigits (m : ℕ) : '_' ∉ m.repr.toList := by
    rw [Nat.toList_repr]
    exact Nat.underscore_not_in_toDigits
  cases n with
  | ofNat m => exact hdigits m
  | negSucc m =>
    rw [show toString (Int.negSucc m) = "-" ++ (m + 1).repr from rfl, String.toList_append]
    intro hmem
    rcases List.mem_append.mp hmem with hminus | hmem
    · exact absurd (List.mem_singleton.mp hminus) (by decide)
    · exact hdigits (m + 1) hmem

theorem legible_uuid (id : Uuid) : ∀ c ∈ id.text.toList, Legible c := by
  have hminus : Legible '-' := ⟨by decide, by decide⟩
  have hhex := legible_hexChars (Bytes.toBe 16 id.val)
  intro c hc
  simp only [Uuid.text, String.toList_ofList, List.mem_append, List.mem_cons] at hc
  rcases hc with hc | rfl | hc | rfl | hc | rfl | hc | rfl | hc
  · exact hhex c (List.mem_of_mem_take hc)
  · exact hminus
  · exact hhex c (List.mem_of_mem_drop (List.mem_of_mem_take hc))
  · exact hminus
  · exact hhex c (List.mem_of_mem_drop (List.mem_of_mem_take hc))
  · exact hminus
  · exact hhex c (List.mem_of_mem_drop (List.mem_of_mem_take hc))
  · exact hminus
  · exact hhex c (List.mem_of_mem_drop hc)

/-- The text of a cursor is one word. -/
theorem Cursor.legible_encode (c : Cursor) : ∀ x ∈ c.encode.toList, Legible x := by
  intro x hx
  simp only [Cursor.encode, String.toList_append, List.mem_append] at hx
  rcases hx with (hx | hx) | hx
  · exact legible_toString _ x hx
  · obtain rfl := List.mem_singleton.mp hx
    exact ⟨by decide, by decide⟩
  · exact legible_uuid c.id x hx

theorem presentText_encode (c : Cursor) : presentText (some c.encode) = some c.encode := by
  have htrim : trim c.encode = c.encode := by
    have h := trim_of_no_whitespace fun x hx => (c.legible_encode x hx).not_whitespace
    rwa [String.ofList_toList] at h
  have hne : c.encode ≠ "" := by
    intro hempty
    have hmem : '_' ∈ c.encode.toList := by simp [Cursor.encode]
    rw [hempty] at hmem
    simp at hmem
  simp [presentText, htrim, Option.filter_some, hne]

section Decode

variable {parseUuid : String → Option Uuid} (hparse : ∀ id : Uuid, parseUuid id.text = some id)

include hparse

/-- **A cursor is read back** from its text. -/
theorem Cursor.decode_encode {c : Cursor} (hc : Stored c.createdAt) :
    Cursor.decode parseUuid c.encode = some c := by
  have htext : c.encode.toList =
      (toString c.createdAt.toMicros).toList ++ '_' :: c.id.text.toList := by
    simp only [Cursor.encode, String.toList_append, List.append_assoc]
    rfl
  have hmicros : I64.parse (toString c.createdAt.toMicros).toList =
      some ⟨c.createdAt.toMicros, c.createdAt.inI64_toMicros⟩ :=
    I64.parse_toString ⟨c.createdAt.toMicros, c.createdAt.inI64_toMicros⟩
  rw [Cursor.decode, htext, splitOnce_append (underscore_not_mem_toString _)]
  simp only [Option.bind_eq_bind, Option.bind_some, hmicros, hc.ofMicros_toMicros,
    String.ofList_toList, hparse]

/-! ## Pages -/

/-- The text of a place. -/
def placeToken (k : ℤ ×ₗ Uuid) : String := toString (ofLex k).1 ++ "_" ++ (ofLex k).2.text

omit hparse in
/-- **The statement pages by keys.** -/
theorem list_eq (rows : List Deposit) (userId : String) (filter : ListFilter) {limit : ℕ}
    (hlimit : filter.limit = limit) :
    (list rows userId filter).items =
        (Paging.page Deposit.place (rows.filter (filter.admits userId)) limit
          (filter.cursor.map Cursor.place)).1 ∧
      (list rows userId filter).nextCursor =
        ((Paging.page Deposit.place (rows.filter (filter.admits userId)) limit
          (filter.cursor.map Cursor.place)).2).map placeToken := by
  have hselected : (rows.filter fun d =>
      filter.admits userId d && filter.cursor.all fun c => decide (d.place < c.place)) =
      (rows.filter (filter.admits userId)).filter
        (Paging.below Deposit.place (filter.cursor.map Cursor.place)) := by
    rw [List.filter_filter]
    congr 1
    funext d
    rw [Bool.and_comm, Paging.below, Option.all_map]
  have hfetch : (((rows.filter fun d =>
      filter.admits userId d && filter.cursor.all fun c => decide (d.place < c.place)).mergeSort
        fun a b => decide (b.place ≤ a.place)).take (filter.limit + 1).toNat) =
      Paging.fetch Deposit.place (rows.filter (filter.admits userId))
        (filter.cursor.map Cursor.place) limit := by
    rw [hselected, show (filter.limit + 1).toNat = limit + 1 by omega]
    rfl
  simp only [list, hfetch]
  simp only [hlimit, Paging.page, Int.toNat_natCast]
  split
  · next hlong =>
    rw [if_pos (by omega)]
    refine ⟨rfl, ?_⟩
    rw [Option.map_map]
    rfl
  · next hshort =>
    rw [if_neg (by omega)]
    exact ⟨rfl, rfl⟩

variable {registry : Registry}

/-- A cursor only changes where the page starts. -/
theorem intoFilter_cursor {query : ListQuery} {filter : ListFilter}
    (h : { query with cursor := none }.intoFilter parseUuid registry = .ok filter) :
    (0 < filter.limit ∧ filter.cursor = none) ∧
      ∀ c : Cursor, Stored c.createdAt →
        { query with cursor := some c.encode }.intoFilter parseUuid registry =
          .ok { filter with cursor := some c } := by
  obtain ⟨status, hstatus, h⟩ := bind_eq_ok.mp h
  obtain ⟨chainId, hchainId, h⟩ := bind_eq_ok.mp h
  obtain ⟨hrange, h⟩ := refuseIf_bind_eq_ok.mp h
  obtain ⟨cursor, hcursor, h⟩ := bind_eq_ok.mp h
  obtain rfl := Except.ok.inj hcursor
  obtain rfl := pure_eq_ok.mp h
  have hlimit : (1 : ℤ) ≤ query.limit.getD DEFAULT_PAGE := by
    simp only [Bool.not_eq_false', Bool.and_eq_true, decide_eq_true_eq] at hrange
    exact hrange.1
  refine ⟨⟨by dsimp only; omega, rfl⟩, ?_⟩
  intro c hc
  refine bind_eq_ok.mpr ⟨status, hstatus, bind_eq_ok.mpr ⟨chainId, hchainId, ?_⟩⟩
  refine refuseIf_bind_eq_ok.mpr ⟨hrange, bind_eq_ok.mpr ⟨some c, ?_, rfl⟩⟩
  rw [readField, presentText_encode]
  dsimp only
  rw [Cursor.decode_encode hparse hc]
  rfl

section Pages

variable {rows : List Deposit} {userId : String} {query : ListQuery} {filter : ListFilter}

/-- A row that was listed is a place to go on from. -/
theorem listPage_eq (htimes : ∀ d ∈ rows, Stored d.createdAt) {limit : ℕ}
    (hlimit : filter.limit = limit)
    (hquery : { query with cursor := none }.intoFilter parseUuid registry = .ok filter)
    (place : Option (ℤ ×ₗ Uuid))
    (hplace : ∀ k ∈ place, k ∈ (rows.filter (filter.admits userId)).map Deposit.place) :
    listPage parseUuid registry rows userId query (place.map placeToken) =
      .ok ((Paging.page Deposit.place (rows.filter (filter.admits userId)) limit place).1,
        (Paging.page Deposit.place (rows.filter (filter.admits userId)) limit place).2.map
          placeToken) := by
  obtain ⟨⟨-, hnone⟩, hcursor⟩ := intoFilter_cursor hparse hquery
  rcases place with _ | k
  · obtain ⟨hitems, hnext⟩ := list_eq rows userId filter hlimit
    rw [hnone] at hitems hnext
    refine bind_eq_ok.mpr ⟨filter, hquery, ?_⟩
    rw [pure_eq_ok, hitems, hnext]
    rfl
  · obtain ⟨d, hd, rfl⟩ := List.mem_map.mp (hplace k rfl)
    have hstored := htimes d (List.mem_filter.mp hd).1
    have hfilter := hcursor ⟨d.createdAt, d.id⟩ hstored
    obtain ⟨hitems, hnext⟩ :=
      list_eq rows userId { filter with cursor := some ⟨d.createdAt, d.id⟩ } hlimit
    refine bind_eq_ok.mpr ⟨_, hfilter, ?_⟩
    rw [pure_eq_ok, hitems, hnext]
    rfl

/-- **Listing a user's deposits page by page.** From rows with distinct ids, stored with microseconds,
whoever asks without a cursor and then with the cursor of each page is done after a number of pages,
and has read the user's deposits that match the query, newest first and each once, on pages that are
full up to the last. And every cursor is read back from its text. -/
theorem listing_pages (hids : (rows.map Deposit.id).Nodup) (htimes : ∀ d ∈ rows, Stored d.createdAt)
    (hquery : { query with cursor := none }.intoFilter parseUuid registry = .ok filter) :
    (∃ pages : List (List Deposit),
      (∀ n, pages.length ≤ n → Paging.follow (listPage parseUuid registry rows userId query) n none =
        .ok (some pages)) ∧
      (pages.flatten.Pairwise fun a b => b.place < a.place) ∧
      (∀ d, d ∈ pages.flatten ↔ d ∈ rows ∧ filter.admits userId d = true) ∧
      ∀ page ∈ pages.dropLast, (page.length : ℤ) = filter.limit) ∧
    ∀ c : Cursor, Stored c.createdAt → Cursor.decode parseUuid c.encode = some c := by
  refine ⟨?_, fun c hc => Cursor.decode_encode hparse hc⟩
  obtain ⟨⟨hpos, -⟩, -⟩ := intoFilter_cursor hparse hquery
  obtain ⟨limit, hlimit⟩ := Int.eq_ofNat_of_zero_le hpos.le
  have hkeys : ((rows.filter (filter.admits userId)).map Deposit.place).Nodup := by
    have hsub := (hids.sublist (List.Sublist.map Deposit.id
      (List.filter_sublist (p := filter.admits userId) (l := rows))))
    have hplaces : (((rows.filter (filter.admits userId)).map Deposit.place).map
        fun k => (ofLex k).2).Nodup := by
      rw [List.map_map]
      exact hsub
    exact hplaces.of_map
  obtain ⟨pages, hfollow, hflat, hfull⟩ := Paging.follow_pages hkeys (by omega)
    (listPage_eq hparse htimes hlimit hquery)
  refine ⟨pages, hfollow, ?_, ?_, ?_⟩
  · rw [hflat]
    exact Paging.descending_pairwise hkeys
  · intro d
    rw [hflat, (Paging.descending_perm _).mem_iff, List.mem_filter]
  · intro page hpage
    rw [hfull page hpage, hlimit]

end Pages

end Decode

/-! ## Three deposits of one microsecond -/

/-- The id that the hex of a text spells. -/
def readUuid (s : String) : Option Uuid :=
  (unhex (s.toList.filter (· ≠ '-'))).map fun bs => Fin.ofNat _ (Bytes.beNat bs)

/-- Without its hyphens the text of an id is its hex. -/
theorem filter_text (id : Uuid) :
    id.text.toList.filter (· ≠ '-') = hexChars (Bytes.toBe 16 id.val) := by
  have hhex : ∀ c ∈ hexChars (Bytes.toBe 16 id.val), (decide (c ≠ '-')) = true := by
    intro c hc
    rw [decide_eq_true_eq]
    rintro rfl
    have hall := (all_isHexDigit_of_unhex (unhex_hexChars (Bytes.toBe 16 id.val))).1
    exact absurd (List.all_eq_true.mp hall '-' hc) (by decide)
  have htake (n : ℕ) {cs : List Char} (h : ∀ c ∈ cs, (decide (c ≠ '-')) = true) :
      (cs.take n).filter (· ≠ '-') = cs.take n :=
    List.filter_eq_self.mpr fun c hc => h c (List.mem_of_mem_take hc)
  have hdrop (n : ℕ) : ∀ c ∈ (hexChars (Bytes.toBe 16 id.val)).drop n, (decide (c ≠ '-')) = true :=
    fun c hc => hhex c (List.mem_of_mem_drop hc)
  have hminus (cs : List Char) : ('-' :: cs).filter (· ≠ '-') = cs.filter (· ≠ '-') :=
    List.filter_cons_of_neg (by decide)
  rw [Uuid.text, String.toList_ofList]
  simp only [List.filter_append, hminus]
  rw [htake 8 hhex, htake 4 (hdrop 8), htake 4 (hdrop 12), htake 4 (hdrop 16),
    List.filter_eq_self.mpr (hdrop 20), ← drop_eq_take_append _ 16 4, ← drop_eq_take_append _ 12 4,
    ← drop_eq_take_append _ 8 4, List.take_append_drop]

theorem readUuid_text (id : Uuid) : readUuid id.text = some id := by
  have hid : id.val < 256 ^ 16 := id.isLt
  rw [readUuid, filter_text, unhex_hexChars, Option.map_some, Bytes.beNat_toBe_of_lt hid]
  simp

namespace Fixture

/-- The fixture's deposit, three times over. -/
def listed : List Deposit :=
  [3, 1, 2].filterMap fun id =>
    validated.toOption.bind fun new => insertDeposit new id "user" requestedAt

/-- Two deposits a page. -/
def twoAPage : ListQuery := ⟨none, none, none, none, none, none, none, none, none, some 2⟩

/-- The filter of it. -/
def twoAPageFilter : ListFilter := ⟨none, none, none, none, none, none, none, none, none, 2⟩

theorem listed_stored : ∀ d ∈ listed, Stored d.createdAt := by
  have hall : listed.all (fun d =>
      decide (DateTime.ofMicros d.createdAt.toMicros = some d.createdAt)) = true := by decide +kernel
  intro d hd
  exact ⟨_, of_decide_eq_true (List.all_eq_true.mp hall d hd)⟩

end Fixture

theorem listing_pages_fixture : ∃ pages : List (List Deposit),
    (∀ n, pages.length ≤ n → Paging.follow (listPage readUuid Fixture.registry Fixture.listed "user"
      Fixture.twoAPage) n none = .ok (some pages)) ∧
    (pages.flatten.Pairwise fun a b => b.place < a.place) ∧
    (∀ d, d ∈ pages.flatten ↔ d ∈ Fixture.listed ∧ Fixture.twoAPageFilter.admits "user" d = true) ∧
    ∀ page ∈ pages.dropLast, (page.length : ℤ) = 2 := by
  have hids : (Fixture.listed.map Deposit.id).Nodup := by decide +kernel
  have hquery : { Fixture.twoAPage with cursor := none }.intoFilter readUuid Fixture.registry =
      .ok Fixture.twoAPageFilter := rfl
  exact (listing_pages readUuid_text hids Fixture.listed_stored hquery).1

end GumServer
