import LedgerExport.Remote.Exchange

/-!
# Listings over a connection

A listing is spread over pages. `exchange_page` says what the exchange does with one page that has a
token, and `exchange_pages` carries it over any number of them: each reply is answered by the
request for the page behind it, and the objects are added in order. `listing_follows_pages` puts the
end of the exchange behind it.
-/

namespace LedgerExport.Remote

open Text

/-- The page in a reply, unless the reply is an error or its page cannot be read. -/
def Reply.page? : Reply → Option Page
  | .accepted content => content.page
  | .refused .. | .errorDocument .. => none

/-- An object on a page as a listing names it, if it has a key. -/
def entrySummary? (entry : Option String × Option Int) : Option ObjectSummary :=
  entry.1.map fun key => ⟨key, (max (entry.2.getD 0) 0).toNat⟩

/-- The objects with a key on pages, in order. -/
def listed (pages : List Page) : List ObjectSummary :=
  (pages.flatMap (·.objects)).filterMap entrySummary?

/-- A page names its objects that have a key. -/
theorem Page.summaries_eq (page : Page) :
    page.summaries = page.objects.filterMap entrySummary? := by
  unfold summaries
  congr 1
  funext ⟨key, size⟩
  rcases key with _ | key
  · rfl
  · simp only [entrySummary?, Option.map_some, Option.some.injEq, ObjectSummary.mk.injEq, true_and]
    omega

/-- Without a page there is nothing to name. -/
theorem listed_nil : listed [] = [] := rfl

/-- What a page names comes before what the pages behind it name. -/
theorem listed_cons (page : Page) (pages : List Page) :
    listed (page :: pages) = page.summaries ++ listed pages := by
  rw [Page.summaries_eq, listed, List.flatMap_cons, List.filterMap_append]
  rfl

/-- What a page names comes after what the pages before it name. -/
theorem listed_append (pages : List Page) (page : Page) :
    listed (pages ++ [page]) = listed pages ++ page.summaries := by
  simp [listed, Page.summaries_eq]

namespace Connection

variable {bucket keyPrefix : String} {delimiter : Option String} {pages : Pages} {page : Page}
  {reply : Reply} {replies rest : List Reply} {sent : List Request}

/-- Without the name of a bucket nothing is asked. -/
theorem exchange_nameless (hbucket : trimmed bucket = "") :
    exchange (.list bucket keyPrefix delimiter) pages sent replies =
      (nameless (.list bucket keyPrefix delimiter), ⟨replies, sent⟩) := by
  have hnone : request? pages (.list bucket keyPrefix delimiter) = none :=
    if_pos (List.mem_singleton.2 hbucket.symm)
  cases replies <;> rw [exchange, hnone]

/-- A page is asked for with the token that has been found last. -/
theorem request?_list (hbucket : trimmed bucket ≠ "") :
    request? pages (.list bucket keyPrefix delimiter) =
      some (.list bucket keyPrefix delimiter pages.token) :=
  if_neg fun hmem => hbucket (List.mem_singleton.1 hmem).symm

/-- What a page with a token names is kept, and the token leads on. -/
theorem receive_page {token : String} (hpage : reply.page? = some page)
    (htoken : page.nextToken = some token) :
    receive (.list bucket keyPrefix delimiter) pages reply =
      .more ⟨pages.objects ++ page.summaries, some token⟩ := by
  cases reply with
  | accepted content =>
    have hpage : content.page = some page := hpage
    simp only [receive, accepted, hpage, htoken]
  | refused | errorDocument => cases hpage

/-- With a page without a token the listing is complete. -/
theorem receive_lastPage (hpage : reply.page? = some page) (htoken : page.nextToken = none) :
    receive (.list bucket keyPrefix delimiter) pages reply =
      .answer (.ok (pages.objects ++ page.summaries)) := by
  cases reply with
  | accepted content =>
    have hpage : content.page = some page := hpage
    simp only [receive, accepted, hpage, htoken]
  | refused | errorDocument => cases hpage

/-- Without a page the listing fails, whatever the pages before have named. -/
theorem receive_noPage (bucket keyPrefix : String) (delimiter : Option String)
    (hpage : reply.page? = none) : ∃ reason, ∀ pages,
      receive (.list bucket keyPrefix delimiter) pages reply =
        .answer (.error (.request .list bucket keyPrefix reason)) := by
  cases reply with
  | accepted content =>
    have hpage : content.page = none := hpage
    exact ⟨_, fun pages => by simp only [receive, accepted, hpage]; rfl⟩
  | refused http code => exact ⟨_, fun _ => rfl⟩
  | errorDocument http code => exact ⟨_, fun _ => rfl⟩

/-- A page with a token takes one request, and the exchange goes on from there. -/
theorem exchange_page {token : String} (hbucket : trimmed bucket ≠ "")
    (hpage : reply.page? = some page) (htoken : page.nextToken = some token) :
    exchange (.list bucket keyPrefix delimiter) pages sent (reply :: replies) =
      exchange (.list bucket keyPrefix delimiter) ⟨pages.objects ++ page.summaries, some token⟩
        (sent ++ [.list bucket keyPrefix delimiter pages.token]) replies := by
  rw [exchange, request?_list hbucket]
  simp only [receive_page hpage htoken]

/-- A reply that is not followed by a request ends the exchange. -/
theorem exchange_answer {a : Call.Answer (.list bucket keyPrefix delimiter)}
    (hbucket : trimmed bucket ≠ "")
    (h : receive (.list bucket keyPrefix delimiter) pages reply = .answer a) :
    exchange (.list bucket keyPrefix delimiter) pages sent (reply :: replies) =
      (a, ⟨replies, sent ++ [.list bucket keyPrefix delimiter pages.token]⟩) := by
  rw [exchange, request?_list hbucket]
  simp only [h]

/-- Pages with tokens take one request each, and so does the reply behind them that ends the
exchange. The first page is asked for with the token at hand and each later one with the token of
the page before it. The answer is made from what the pages name, in order. -/
theorem exchange_pages {leading : List Page} {last : Reply}
    {a : List ObjectSummary → Call.Answer (.list bucket keyPrefix delimiter)}
    (hbucket : trimmed bucket ≠ "") (hpages : replies.map Reply.page? = leading.map some)
    (htokens : ∀ page ∈ leading, page.nextToken ≠ none)
    (hlast : ∀ pages, receive (.list bucket keyPrefix delimiter) pages last =
      .answer (a pages.objects)) :
    exchange (.list bucket keyPrefix delimiter) pages sent (replies ++ last :: rest) =
      (a (pages.objects ++ listed leading), ⟨rest, sent ++
        (pages.token :: leading.map (·.nextToken)).map (.list bucket keyPrefix delimiter)⟩) := by
  induction leading generalizing pages sent replies with
  | nil =>
    obtain rfl := List.map_eq_nil_iff.1 hpages
    rw [listed_nil, List.append_nil]
    exact exchange_answer hbucket (hlast pages)
  | cons page leading ih =>
    obtain ⟨reply, replies, rfl, hpage, hpages⟩ := List.map_eq_cons_iff.1 hpages
    obtain ⟨token, htoken⟩ :=
      Option.ne_none_iff_exists'.1 (htokens page List.mem_cons_self)
    rw [List.cons_append, exchange_page hbucket hpage htoken,
      ih hpages fun page hmem => htokens page (List.mem_cons_of_mem _ hmem), listed_cons,
      List.append_assoc, List.append_assoc, ← htoken]
    rfl

/-- A listing asks for one page after the other, each with the token of the page before, up to the
first reply that is no page with a token; what would be replied after that is not asked for. When
that reply is a page, the listing names the objects that have a key on all pages, in order, and
otherwise it fails. For a bucket without a name, or with one of blank characters, it fails before it
asks for anything. -/
theorem listing_follows_pages (bucket keyPrefix : String) (delimiter : Option String)
    (conn : Connection) {leading : List Page} {last : Reply}
    (hconn : conn.replies = replies ++ last :: rest)
    (hpages : replies.map Reply.page? = leading.map some)
    (htokens : ∀ page ∈ leading, page.nextToken ≠ none)
    (hlast : ∀ page, last.page? = some page → page.nextToken = none) :
    let result := respond (.list bucket keyPrefix delimiter) conn
    (trimmed bucket ≠ "" →
      result.2.sent = conn.sent ++
        (none :: leading.map (·.nextToken)).map (.list bucket keyPrefix delimiter) ∧
      result.2.replies = rest ∧
      (∀ page, last.page? = some page → result.1 = .ok (listed (leading ++ [page]))) ∧
      (last.page? = none →
        ∃ reason, result.1 = .error (.request .list bucket keyPrefix reason))) ∧
    (trimmed bucket = "" → result.2.sent = conn.sent ∧ result.2.replies = conn.replies ∧
      ∃ reason, result.1 = .error (.request .list bucket keyPrefix reason)) := by
  intro result
  have hresult : result =
      exchange (.list bucket keyPrefix delimiter) .none conn.sent (replies ++ last :: rest) := by
    rw [← hconn]
    rfl
  refine ⟨fun hbucket => ?_, ?_⟩
  · rcases hpage : last.page? with _ | page
    · obtain ⟨reason, hreason⟩ := receive_noPage bucket keyPrefix delimiter hpage
      rw [hresult, exchange_pages (a := fun _ => .error _) hbucket hpages htokens hreason]
      exact ⟨rfl, rfl, nofun, fun _ => ⟨reason, rfl⟩⟩
    · rw [hresult, exchange_pages (a := fun objects => .ok (objects ++ page.summaries)) hbucket
        hpages htokens fun _ => receive_lastPage hpage (hlast page hpage)]
      refine ⟨rfl, rfl, ?_, nofun⟩
      rintro _ ⟨⟩
      rw [listed_append]
      rfl
  · intro hbucket
    rw [hresult, exchange_nameless hbucket, hconn]
    exact ⟨rfl, rfl, _, rfl⟩

/-- The reply that holds a page. -/
def pageReply (objects : List (Option String × Option Int)) (nextToken : Option String) : Reply :=
  .accepted ⟨some ⟨objects, nextToken⟩, none, none, ""⟩

/-- Replies with three pages: one with an object that has no key and one without a size, one without
objects, and one with a negative size. What comes behind them is not for the listing. -/
def threePages : List Reply :=
  [pageReply [(some "p/a", some 3), (none, some 5), (some "p/b", none)] (some "t"),
    pageReply [] (some ""), pageReply [(some "p/c", some (-1))] none, .refused 500 none]

/-- The three pages are asked for, and the reply behind them is left. -/
theorem listing_of_threePages :
    let result := respond (.list "b" "p/" (some "/")) ⟨threePages, []⟩
    result.2.sent = [.list "b" "p/" (some "/") none, .list "b" "p/" (some "/") (some "t"),
        .list "b" "p/" (some "/") (some "")] ∧
      result.2.replies = [.refused 500 none] ∧
      result.1 = .ok [⟨"p/a", 3⟩, ⟨"p/b", 0⟩, ⟨"p/c", 0⟩] := by
  intro result
  let leading : List Page :=
    [⟨[(some "p/a", some 3), (none, some 5), (some "p/b", none)], some "t"⟩, ⟨[], some ""⟩]
  have hpages : (threePages.take 2).map Reply.page? = leading.map some := rfl
  have hlast : ∀ page, (pageReply [(some "p/c", some (-1))] none).page? = some page →
      page.nextToken = none := by
    rintro _ ⟨⟩
    rfl
  obtain ⟨hsent, hreplies, hok, -⟩ := (listing_follows_pages "b" "p/" (some "/") ⟨threePages, []⟩
    rfl hpages (by decide) hlast).1 (by decide)
  exact ⟨hsent, hreplies, hok _ rfl⟩

/-- In a bucket without a name no page is asked for, although there is one. -/
theorem nameless_listing_unasked :
    let result := respond (.list "" "p/" none) ⟨[pageReply [(some "p/a", some 1)] none], []⟩
    result.2.sent = [] ∧ ∃ reason, result.1 = .error (.request .list "" "p/" reason) :=
  ⟨rfl, _, rfl⟩

end Connection

end LedgerExport.Remote
