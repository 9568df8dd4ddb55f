import Cix.Http.Requests
import Cix.Lib.Framing

/-!
# A request does not depend on the reads

The parser keeps what it has found of the headers, and goes on from there with
more bytes.  It answers as a scanner does that starts over with every read;
and what that scanner finds is there however the bytes arrive.
-/

namespace Cix.Http

open Cix.Lib List

variable {headersEnd : Nat} {buf : Bytes}

theorem findHeadersEnd_le (found : findHeadersEnd buf = some headersEnd) :
    4 ≤ headersEnd ∧ headersEnd ≤ buf.length := by
  unfold findHeadersEnd at found
  rw [Option.map_eq_some_iff] at found
  obtain ⟨⟨before, after⟩, isFound, rfl⟩ := found
  have whole := congrArg List.length (strstr_eq_some isFound)
  simp only [length_append, crlf, length_cons, length_nil] at whole
  constructor <;> simp only <;> omega

theorem findHeadersEnd_append (found : findHeadersEnd buf = some headersEnd)
    (later : Bytes) : findHeadersEnd (buf ++ later) = some headersEnd := by
  unfold findHeadersEnd at found ⊢
  rw [Option.map_eq_some_iff] at found
  obtain ⟨⟨before, after⟩, isFound, rfl⟩ := found
  have isBuf := strstr_eq_some isFound
  rw [isBuf] at isFound
  have more := strstr_replace isFound (after ++ later)
  have longer : buf ++ later = before ++ (crlf ++ crlf ++ (after ++ later)) := by
    rw [isBuf]
    simp
  rw [longer, more]
  rfl

theorem parseHead_append (inside : headersEnd ≤ buf.length) (later : Bytes) :
    parseHead (buf ++ later) headersEnd = parseHead buf headersEnd := by
  have block : (buf ++ later).take (headersEnd - 2) = buf.take (headersEnd - 2) :=
    take_append_of_le_length (by omega)
  simp only [parseHead, block]

theorem headersEnd_of_parseHead {head : Head} (parsed : parseHead buf headersEnd = some head) :
    head.headersEnd = headersEnd := by
  unfold parseHead at parsed
  simp only at parsed
  split at parsed
  · cases parsed
  · cases parsed
    rfl

theorem takeBody_ne_rejected (buf : Bytes) (head : Head) : takeBody buf head ≠ .rejected := by
  unfold takeBody
  split
  · intro impossible
    cases impossible
  · intro impossible
    cases impossible

theorem takeBody_append {head : Head} {r : Request}
    (taken : takeBody buf head = .request r) (later : Bytes) :
    takeBody (buf ++ later) head = .request r := by
  unfold takeBody at taken ⊢
  split at taken
  · cases taken
  next whole =>
    cases taken
    rw [length_append, if_neg (by omega), take_append_of_le_length (by omega),
      drop_append_of_le_length (by omega),
      take_append_of_le_length (by rw [length_drop]; omega)]

/-- What `http_conn_try_parse` says of a buffer that it sees for the first
time. -/
def scanRequest (buf : Bytes) : Scan Request :=
  match findHeadersEnd buf with
  | none => .more
  | some headersEnd =>
    match parseHead buf headersEnd with
    | none => .bad
    | some head =>
      match takeBody buf head with
      | .request r => .found r (head.headersEnd + head.contentLength)
      | _ => .more

theorem scanRequest_of_head {head : Head} (found : findHeadersEnd buf = some headersEnd)
    (parsed : parseHead buf headersEnd = some head) :
    scanRequest buf =
      match takeBody buf head with
      | .request r => .found r (head.headersEnd + head.contentLength)
      | _ => .more := by
  rw [scanRequest, found]
  simp only [parsed]

theorem scanRequest_size {buf : Bytes} {r : Request} {size : Nat}
    (isRequest : scanRequest buf = .found r size) :
    0 < size ∧ size ≤ buf.length := by
  unfold scanRequest at isRequest
  cases found : findHeadersEnd buf with
  | none =>
    rw [found] at isRequest
    cases isRequest
  | some headersEnd =>
    rw [found] at isRequest
    cases parsed : parseHead buf headersEnd with
    | none => simp only [parsed] at isRequest; cases isRequest
    | some head =>
      simp only [parsed] at isRequest
      have positive := (findHeadersEnd_le found).1
      rw [← headersEnd_of_parseHead parsed] at positive
      unfold takeBody at isRequest
      by_cases short : buf.length < head.headersEnd + head.contentLength
      · rw [if_pos short] at isRequest
        cases isRequest
      · rw [if_neg short] at isRequest
        cases isRequest
        omega

theorem scanRequest_append {buf : Bytes} (decided : scanRequest buf ≠ .more)
    (later : Bytes) : scanRequest (buf ++ later) = scanRequest buf := by
  cases found : findHeadersEnd buf with
  | none =>
    rw [scanRequest, found] at decided
    exact absurd rfl decided
  | some headersEnd =>
    have foundLater := findHeadersEnd_append found later
    have sameHead := parseHead_append (findHeadersEnd_le found).2 later
    cases parsed : parseHead buf headersEnd with
    | none =>
      rw [scanRequest, scanRequest, foundLater, found]
      simp only [sameHead, parsed]
    | some head =>
      rw [parsed] at sameHead
      rw [scanRequest_of_head found parsed] at decided ⊢
      rw [scanRequest_of_head foundLater sameHead]
      cases taken : takeBody buf head with
      | incomplete =>
        rw [taken] at decided
        exact absurd rfl decided
      | rejected => exact absurd taken (takeBody_ne_rejected buf head)
      | request r => rw [takeBody_append taken later]

def requests : Scanner UInt8 Request where
  scan := scanRequest
  last _ := true
  scan_nil := rfl
  size_found := scanRequest_size
  stable := scanRequest_append

def outcomeOf (r : Reader UInt8 Request) : Outcome :=
  match r.items, r.pending with
  | request :: _, _ => .request request
  | [], none => .rejected
  | [], some _ => .incomplete

def Cached (c : Conn) : Prop :=
  match c.head with
  | none => findHeadersEnd c.buf = none
  | some head => ∃ headersEnd, findHeadersEnd c.buf = some headersEnd ∧
      parseHead c.buf headersEnd = some head

def Follows (x : Exchange) (r : Reader UInt8 Request) : Prop :=
  match x.outcome with
  | .incomplete => r = ⟨[], some x.conn.buf⟩ ∧ Cached x.conn ∧
      scanRequest x.conn.buf = .more
  | .rejected => r = ⟨[], none⟩
  | .request q => r = ⟨[q], none⟩

variable {r : Reader UInt8 Request}

theorem outcome_of_follows {x : Exchange}
    (follows : Follows x r) : x.outcome = outcomeOf r := by
  unfold Follows at follows
  cases said : x.outcome with
  | incomplete =>
    rw [said] at follows
    rw [follows.1]
    rfl
  | rejected =>
    rw [said] at follows
    rw [follows]
    rfl
  | request q =>
    rw [said] at follows
    rw [follows]
    rfl

def decided (buf : Bytes) : Scan Request → Reader UInt8 Request
  | .more => ⟨[], some buf⟩
  | .bad => ⟨[], none⟩
  | .found q _ => ⟨[q], none⟩

theorem drain_requests (buf : Bytes) : requests.drain buf = decided buf (scanRequest buf) := by
  cases scanned : scanRequest buf with
  | more => exact Scanner.drain_more scanned
  | bad => exact Scanner.drain_bad scanned
  | found q size =>
    rw [Scanner.drain_found (s := requests) scanned]
    rfl

theorem follows_takeBody {c : Conn} {headersEnd : Nat} {head : Head} (isHead : c.head = some head)
    (found : findHeadersEnd c.buf = some headersEnd)
    (parsed : parseHead c.buf headersEnd = some head) :
    Follows ⟨c, takeBody c.buf head⟩ (decided c.buf (scanRequest c.buf)) := by
  have scanned := scanRequest_of_head found parsed
  cases taken : takeBody c.buf head with
  | incomplete =>
    rw [taken] at scanned
    rw [scanned]
    refine ⟨rfl, ?_, scanned⟩
    rw [Cached, isHead]
    exact ⟨headersEnd, found, parsed⟩
  | rejected => exact absurd taken (takeBody_ne_rejected _ _)
  | request q =>
    rw [taken] at scanned
    rw [scanned]
    rfl

theorem follows_tryParse {c : Conn} {more : Bytes} (cached : Cached c) :
    let grown : Conn := { c with buf := c.buf ++ more }
    Follows ⟨(httpConnTryParse grown).2, (httpConnTryParse grown).1⟩
      (decided grown.buf (scanRequest grown.buf)) := by
  intro grown
  unfold httpConnTryParse
  cases isHead : c.head with
  | some head =>
    have grownHead : grown.head = some head := isHead
    rw [Cached, isHead] at cached
    obtain ⟨headersEnd, found, parsed⟩ := cached
    have sameHead := parseHead_append (findHeadersEnd_le found).2 more
    simp only
    exact follows_takeBody grownHead (findHeadersEnd_append found more) (sameHead.trans parsed)
  | none =>
    have grownHead : grown.head = none := isHead
    simp only
    cases found : findHeadersEnd grown.buf with
    | none =>
      have scanned : scanRequest grown.buf = .more := by rw [scanRequest, found]
      rw [scanned]
      refine ⟨rfl, ?_, scanned⟩
      rw [Cached, grownHead]
      exact found
    | some headersEnd =>
      simp only
      cases parsed : parseHead grown.buf headersEnd with
      | none =>
        have scanned : scanRequest grown.buf = .bad := by
          rw [scanRequest, found]
          simp only [parsed]
        rw [scanned]
        rfl
      | some head =>
        exact @follows_takeBody { grown with head := some head } headersEnd head rfl found parsed

theorem follows_read {x : Exchange}
    (follows : Follows x r) (data : Bytes) :
    Follows (x.read data) (requests.read maxRequestSize r data) := by
  unfold Exchange.read
  cases said : x.outcome with
  | incomplete =>
    rw [Follows, said] at follows
    obtain ⟨isReader, cached, _⟩ := follows
    rw [isReader]
    simp only [Scanner.read, httpConnFeed, gt_iff_lt]
    by_cases long : maxRequestSize < x.conn.buf.length + data.length
    · rw [if_pos long, if_pos long]
      rfl
    · rw [if_neg long, if_neg long, drain_requests]
      exact follows_tryParse cached
  | rejected =>
    rw [Follows, said] at follows
    subst follows
    simp only [Scanner.read, Follows, said]
  | request q =>
    rw [Follows, said] at follows
    subst follows
    simp only [Scanner.read, Follows, said]

theorem follows_run {x : Exchange}
    (follows : Follows x r) (pieces : List Bytes) :
    Follows (run Exchange.read x pieces) (run (requests.read maxRequestSize) r pieces) := by
  induction pieces generalizing x r with
  | nil => exact follows
  | cons piece rest ih => exact ih (follows_read follows piece)

def outcome (pieces : List Bytes) : Outcome :=
  (run Exchange.read Exchange.start pieces).outcome

theorem outcome_eq (pieces : List Bytes) : outcome pieces = outcomeOf
      (run (requests.read maxRequestSize) Reader.start pieces) := by
  apply outcome_of_follows
  apply follows_run
  exact ⟨rfl, rfl, rfl⟩

theorem outcome_of_short {pieces : List Bytes} (short : pieces.flatten.length ≤ maxRequestSize) :
    outcome pieces = outcomeOf (requests.drain pieces.flatten) := by
  rw [outcome_eq, Scanner.run_read (Scanner.fits_of_length short)]

theorem outcome_of_long {data : Bytes} (long : maxRequestSize < data.length) :
    outcome [data] = .rejected := by
  rw [outcome_eq]
  simp only [run_cons, run_nil, Scanner.read, Reader.start, length_nil, Nat.zero_add, if_pos long]
  rfl

/-- A request of at most the limit is parsed the same however it is cut into
reads.  A longer stream is rejected when it is fed at once; in pieces it has
the outcome of the leading pieces within the limit, fed at once, if they have
one, and is rejected otherwise. -/
theorem outcome_independent_of_reads (pieces : List Bytes) :
    (pieces.flatten.length ≤ maxRequestSize → outcome pieces = outcome [pieces.flatten]) ∧
    (maxRequestSize < pieces.flatten.length → outcome [pieces.flatten] = .rejected ∧
      outcome pieces =
        match outcome
            [(Scanner.leading maxRequestSize 0 pieces).flatten] with
        | .incomplete => .rejected
        | decision => decision) := by
  constructor
  · intro short
    have atOnce : [pieces.flatten].flatten.length ≤ maxRequestSize := by simpa using short
    rw [outcome_of_short short, outcome_of_short atOnce, flatten_singleton]
  · intro long
    refine ⟨outcome_of_long long, ?_⟩
    obtain ⟨rest, equality, inside, _⟩ := Scanner.exists_leading maxRequestSize 0 pieces
    have total := inside (Nat.zero_le _)
    rw [Nat.zero_add, ← flatten_singleton
      (l := (Scanner.leading maxRequestSize 0 pieces).flatten)] at total
    obtain ⟨ended, nothing, _⟩ := @Scanner.run_eq_leading _ _ requests maxRequestSize pieces
    rw [outcome_of_short total, flatten_singleton, outcome_eq]
    simp only [drain_requests] at ended nothing ⊢
    cases scanned : scanRequest (Scanner.leading maxRequestSize 0 pieces).flatten with
    | more =>
      rw [scanned] at nothing
      rw [nothing rfl, if_neg (Nat.not_le.mpr long)]
      rfl
    | bad =>
      rw [scanned] at ended
      rw [ended rfl]
      rfl
    | found q size =>
      rw [scanned] at ended
      rw [ended rfl]
      rfl

def smallRequest : Bytes :=
  [71, 69, 84, 32, 47, 32, 72, 84, 84, 80, 47, 49, 46, 49] ++ crlf ++ crlf

/-- A request with as many bytes behind it as the limit: in two reads it is
answered, at once it is refused. -/
theorem request_before_long_rest :
    ∃ q, outcome [smallRequest, List.replicate maxRequestSize 0] = .request q ∧
      outcome [[smallRequest, List.replicate maxRequestSize 0].flatten] =
        .rejected := by
  refine ⟨⟨[71, 69, 84], [47], 0, smallRequest.take 16, []⟩, ?_, ?_⟩
  · have first : Exchange.start.read smallRequest =
        ⟨⟨smallRequest, some ⟨18, [71, 69, 84], [47], 0⟩⟩,
          .request ⟨[71, 69, 84], [47], 0, smallRequest.take 16, []⟩⟩ := by
      decide +kernel
    rw [outcome, run_cons, first]
    rfl
  · apply outcome_of_long
    simp only [flatten_cons, flatten_nil, append_nil, length_append, length_replicate]
    have nonempty : 0 < smallRequest.length := by decide
    omega

end Cix.Http
