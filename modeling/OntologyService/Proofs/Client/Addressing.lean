import OntologyService.Proofs.Client.Encoding
import OntologyService.Proofs.Server.Agreement

/-!
# Which ontology a client's request is about

A client puts the name of its ontology into the path as it is. The service reads the path that
arrives: it is cut at the first question mark or number sign, taken apart at the slashes and read
segment by segment (`Route.Names`).

**The law** (`names_arriving_iff`): the request is for the operation that was called, on the
ontology that the client is for, exactly if the name is `Plain`: none of its characters ends a
segment, and nowhere do two digits stand behind a percent sign. What the reader takes for an octet
makes the name shorter, and so does what is cut off, so neither makes up for the other
(`eq_of_read`).

Any other name leads nowhere or to an ontology of another name: `%41` leads to `A`. The law is about
libraries as a `UrlEncoding` has them, and about any of these. A real one does more, and a name with
a tab, a line end or a backslash in it, or that is nothing but one or two points, is outside of what
is assumed of it.

With a plain name, what arrives is the message of the call (`posted_arriving`), and that is all that
a client makes of it (`serve_of_message`). So a client whose requests come to a service that takes
them is a knowledge base from afar (`serve_afar`): it answers what the knowledge base does, and its
failures are those of the knowledge base, with the status that they have at the service.
-/

namespace OntologyService

open PathPattern

/-! ## Reading the name -/

namespace Route

variable {q : HttpRequest} {operation name : String}

/-- **A request is for an operation on the ontology of a name**: its path matches the route of the
operation, and the name is what it says in place of the one in braces. -/
def Names (q : HttpRequest) (operation name : String) : Prop :=
  ∃ parts, (ofString (operationPath operation)).match? q.path.toList = some parts ∧
    Router.readParams parts = .ok (Table.ofList [("name", name)])

/-- Two captures of the name alone are equal only for equal names. -/
theorem ofList_name_inj {name' : String}
    (same : Table.ofList [("name", name)] = Table.ofList [("name", name')]) : name = name' := by
  have read := get?_name name
  rw [same, get?_name] at read
  exact (Option.some.inj read).symm

/-- A request is for one ontology at most. -/
theorem Names.unique {name' : String} (h : Names q operation name)
    (h' : Names q operation name') : name = name' := by
  obtain ⟨parts, matched, read⟩ := h
  obtain ⟨parts', matched', read'⟩ := h'
  obtain rfl := Option.some.inj (matched.symm.trans matched')
  exact ofList_name_inj (Except.ok.inj (read.symm.trans read'))

/-- What is read is a single segment of a path that is otherwise spelled out. -/
theorem names_iff (spelled : Spelled operation.toList) :
    Names q operation name ↔ ∃ segment, '/' ∉ segment.toList ∧
      Percent.decodeText? segment = some name ∧
        q.path = Client.operationPath segment operation := by
  rw [Names, ofString_operationPath spelled]
  constructor
  · rintro ⟨parts, matched, read⟩
    obtain ⟨segment, single, path, rfl⟩ := exists_of_match?_operationPattern matched
    obtain ⟨text, decoded, same⟩ := Router.exists_of_readParams read
    rw [ofList_name_inj same]
    exact ⟨segment, single, decoded, String.toList_inj.1 path⟩
  · rintro ⟨segment, single, decoded, path⟩
    refine ⟨[("name", segment)], ?_, ?_⟩
    · rw [path, match?_operationPattern single, if_pos rfl]
    · exact Router.readParams_of_decoded decoded "name"

end Route

/-! ## What a client posts -/

namespace Client

open KnowledgeBase

variable {e : UrlEncoding} {c : Client} {call : Call} {m : Message}

/-- Reading an answer as another type does not change what is asked. -/
theorem ask_map {α β : Type} (t : Transport) (d : Decoder α) (f : α → β) (q : HttpRequest) :
    ask t (fun room j => (d room j).map f) q = (ask t d q).map f := by
  unfold ask
  split
  · rfl
  · next r answered =>
    have mapped : Decoder.octets (fun room j => (d room j).map f) r.body
        = (d.octets r.body).map f := Option.map_bind.symm
    rw [mapped]
    cases d.octets r.body <;> rfl

/-- **A call posts its message** and reads the response as the message says. -/
theorem serve_of_message (t : Transport) (posts : call.message? = some m) :
    c.serve t call = c.post t m.operation m.body m.answer := by
  cases call with
  | close => cases posts
  | query _ _ | entailed _ | explain _ _ | update _ _ =>
    cases posts
    exact (ask_map t _ _ _).symm

/-! ## The law -/

/-- **A name that a URL says as it is.** -/
structure Plain (name : String) : Prop where
  inSegment : ∀ c ∈ name.toList, c ∉ ['/', '?', '#']
  noEscape : ¬Percent.HasEscape name.toList

instance (name : String) : Decidable (Plain name) :=
  decidable_of_iff ((name.toList.all fun c => decide (c ∉ ['/', '?', '#'])) = true ∧
    ¬Percent.HasEscape name.toList) (by
      rw [List.all_eq_true]
      exact ⟨fun h => ⟨fun c among => of_decide_eq_true (h.1 c among), h.2⟩,
        fun h => ⟨fun c among => decide_eq_true (h.inSegment c among), h.noEscape⟩⟩)

/-- What arrives of a path: all of it up to where a query string or a fragment starts. -/
def arrivingPath (cs : List Char) : List Char :=
  (cs.takeWhile fun c => decide (c ≠ '#')).takeWhile fun c => decide (c ≠ '?')

/-- The path that arrives is the path of the call as the library writes it, cut at the first
question mark or hash. -/
theorem toList_path_arriving (e : UrlEncoding) (c : Client) (operation : String) (body : Json) :
    (e.arriving c.base (c.request operation body)).path.toList
      = e.write (arrivingPath (operationPath c.ontology operation).toList) := by
  have target : (c.request operation body).path.toList.drop c.base.toList.length
      = (operationPath c.ontology operation).toList := by
    rw [request, url, String.toList_append, List.drop_left]
  rw [UrlEncoding.arriving, target, HttpRequest.ofTarget, String.toList_ofList,
    String.toList_ofList, UrlEncoding.takeWhile_write (by simp),
    UrlEncoding.takeWhile_write (by simp)]
  rfl

/-- Slashes, letters and digits only: text that a URL takes as it is. -/
def Lettered (cs : List Char) : Prop := ∀ c ∈ cs, c = '/' ∨ c.isAlphanum = true

-- as for `Spelled`, looks at the characters of the text only
instance (cs : List Char) : Decidable (Lettered cs) :=
  List.decidableBAll (fun c => c = '/' ∨ c.isAlphanum = true) cs

/-- Letters, digits and slashes are none of the other characters. -/
theorem Lettered.ne {cs : List Char} (h : Lettered cs) {c d : Char} (among : c ∈ cs)
    (slash : d ≠ '/') (other : d.isAlphanum = false) : c ≠ d := by
  rintro rfl
  rcases h c among with same | letter
  · exact slash same
  · rw [other] at letter
    cases letter

/-- No library escapes a letter, a digit or a slash. -/
theorem Lettered.legal {cs : List Char} (h : Lettered cs) (e : UrlEncoding) :
    ∀ c ∈ cs, e.foreign c = false := fun c among =>
  (h c among).elim (fun slash => e.meaning c (by simp [slash])) (e.alphanumeric c)

/-- Letters, digits and slashes stand for themselves. -/
theorem Lettered.spelled {cs : List Char} (h : Lettered cs) : Spelled cs := fun _ among =>
  ⟨h.ne among (by decide) (by decide), h.ne among (by decide) (by decide)⟩

/-- No letter, digit or slash ends the path of a URL. -/
theorem Lettered.uncut {cs : List Char} (h : Lettered cs) : ∀ c ∈ cs, c ∉ ['?', '#'] :=
  fun _ among => by
    rw [List.mem_cons, List.mem_singleton]
    exact not_or.2 ⟨h.ne among (by decide) (by decide), h.ne among (by decide) (by decide)⟩

/-- A path is cut in its first part or, if that has nothing to cut, in the rest. -/
theorem arrivingPath_append {front : List Char} (uncut : ∀ c ∈ front, c ∉ ['?', '#'])
    (rest : List Char) : arrivingPath (front ++ rest) = front ++ arrivingPath rest := by
  have fragment : ∀ c ∈ front, decide (c ≠ '#') = true := fun c among =>
    decide_eq_true fun same => uncut c among (by simp [same])
  have query : ∀ c ∈ front, decide (c ≠ '?') = true := fun c among =>
    decide_eq_true fun same => uncut c among (by simp [same])
  rw [arrivingPath, List.takeWhile_append_of_pos fragment, List.takeWhile_append_of_pos query]
  rfl

/-- A path with nothing to cut arrives as it is. -/
theorem arrivingPath_of_uncut {cs : List Char} (uncut : ∀ c ∈ cs, c ∉ ['?', '#']) :
    arrivingPath cs = cs := by
  have split := arrivingPath_append uncut []
  rwa [List.append_nil, show arrivingPath [] = [] from rfl, List.append_nil] at split

/-- Of a name in front of a slash a segment has what comes before the first delimiter. -/
theorem takeWhile_inSegment_arrivingPath (name back : List Char) :
    (arrivingPath (name ++ '/' :: back)).takeWhile inSegment
      = name.takeWhile fun c => decide (c ∉ ['/', '?', '#']) := by
  have merged (cs : List Char) : (arrivingPath cs).takeWhile inSegment
      = cs.takeWhile fun c => decide (c ∉ ['/', '?', '#']) := by
    rw [arrivingPath, List.takeWhile_takeWhile, List.takeWhile_takeWhile]
    congr 1
    funext c
    simp [inSegment, and_assoc]
  rw [merged]
  induction name with
  | nil => exact List.takeWhile_cons_of_neg (by decide)
  | cons c name ih => rw [List.cons_append, List.takeWhile_cons, List.takeWhile_cons, ih]

/-- **A name that is read** was neither cut off nor taken for escapes. -/
theorem eq_of_read {name : String} {front : List Char} (cut : front <+: name.toList)
    (read : Utf8.decode? (Percent.decodeChars front) = some name) :
    front = name.toList ∧ ¬Percent.HasEscape front := by
  rcases Percent.decodeChars_cases front with ⟨-, shorter⟩ | ⟨noEscape, same⟩
  · obtain ⟨behind, whole⟩ := cut
    have same := congrArg List.length (Utf8.decode?_eq_some_iff.1 read)
    rw [← whole, Utf8.encode, List.flatMap_append, List.length_append] at same
    exact absurd same (Nat.ne_of_lt (Nat.lt_add_right _ shorter))
  · rw [same, Utf8.decode?_encode] at read
    exact ⟨by rw [← Option.some.inj read, String.toList_ofList], noEscape⟩

/-- The path of an operation arrives as it is written, but for the name and what a delimiter in it
cuts off. -/
theorem toList_path_arriving_request (e : UrlEncoding) (c : Client) (operation : String)
    (body : Json) :
    (e.arriving c.base (c.request operation body)).path.toList = "/ontologies/".toList ++
      e.write (arrivingPath (c.ontology.toList ++ '/' :: operation.toList)) := by
  have front : Lettered "/ontologies/".toList := by decide
  rw [toList_path_arriving, Route.toList_clientPath, arrivingPath_append front.uncut,
    UrlEncoding.write_append, UrlEncoding.write_of_legal (front.legal e)]

/-- Decoding what a library wrote gives what decoding the characters themselves gives. -/
theorem decodeText?_write (e : UrlEncoding) (cs : List Char) :
    Percent.decodeText? (String.ofList (e.write cs)) = Utf8.decode? (Percent.decodeChars cs) := by
  rw [Percent.decodeText?, toUTF8_ofList, UrlEncoding.decode_write]

variable {operation : String}

/-- **The request for an operation** is for the ontology of the client exactly if its name is
plain. -/
theorem names_request_iff (e : UrlEncoding) (c : Client) (letters : Lettered operation.toList)
    (body : Json) :
    Route.Names (e.arriving c.base (c.request operation body)) operation c.ontology
      ↔ Plain c.ontology := by
  have arrived := toList_path_arriving_request e c operation body
  rw [Route.names_iff letters.spelled]
  constructor
  · rintro ⟨segment, single, decoded, path⟩
    rw [path, Route.toList_clientPath] at arrived
    -- the segment that arrives ends at the first slash, or where the path is cut
    have rest := congrArg (List.takeWhile inSegment) (List.append_cancel_left arrived)
    rw [takeWhile_inSegment_append single, UrlEncoding.takeWhile_write (by simp [inSegment]),
      takeWhile_inSegment_arrivingPath] at rest
    rw [← String.ofList_toList (s := segment), rest, decodeText?_write] at decoded
    obtain ⟨whole, noEscape⟩ := eq_of_read (List.takeWhile_prefix _) decoded
    rw [whole] at noEscape
    exact ⟨fun d among => of_decide_eq_true (List.takeWhile_eq_self_iff.1 whole d among), noEscape⟩
  · rintro ⟨inSegment, noEscape⟩
    have back : Lettered ('/' :: operation.toList) := List.forall_mem_cons.2 ⟨.inl rfl, letters⟩
    have written : (String.ofList (e.write c.ontology.toList)).toList = e.write c.ontology.toList :=
      String.toList_ofList
    refine ⟨String.ofList (e.write c.ontology.toList), ?_, ?_, String.toList_inj.1 ?_⟩
    · rw [written]
      exact fun slash => UrlEncoding.not_delimiter_of_mem_write inSegment _ slash (by decide)
    · rw [decodeText?_write, Percent.decodeChars_eq noEscape, Utf8.decode?_encode,
        String.ofList_toList]
    · have uncut : ∀ d ∈ c.ontology.toList, d ∉ ['?', '#'] := fun d among =>
        List.not_mem_of_not_mem_cons (inSegment d among)
      rw [arrived, Route.toList_clientPath, written, arrivingPath_append uncut,
        arrivingPath_of_uncut back.uncut, UrlEncoding.write_append,
        UrlEncoding.write_of_legal (back.legal e)]

/-- The operations that are posted to have paths of letters and slashes. -/
theorem lettered_of_message (posts : call.message? = some m) : Lettered m.operation.toList := by
  cases call with
  | close => cases posts
  | query _ _ => cases posts; exact (by decide : Lettered "query".toList)
  | entailed _ => cases posts; exact (by decide : Lettered "entails".toList)
  | explain _ _ => cases posts; exact (by decide : Lettered "explain".toList)
  | update _ _ => cases posts; exact (by decide : Lettered "update".toList)

/-- A client of an ontology with a plain name asks the service what it is asked itself. -/
theorem posted_arriving (e : UrlEncoding) (c : Client) (posts : call.message? = some m)
    (plain : Plain c.ontology) :
    m.Posted c.ontology (e.arriving c.base (c.request m.operation m.body)) where
  method := rfl
  path :=
    have letters := lettered_of_message posts
    (Route.names_iff letters.spelled).1 ((names_request_iff e c letters m.body).2 plain)
  body := rfl

/-- **The law.** The request for a call is for the ontology of the client exactly if its name is
plain, whatever the library that writes the URL finds no place for in one. -/
theorem names_arriving_iff (e : UrlEncoding) (c : Client) (posts : call.message? = some m) :
    Route.Names (e.arriving c.base (c.request m.operation m.body)) m.operation c.ontology
      ↔ Plain c.ontology :=
  names_request_iff e c (lettered_of_message posts) m.body

/-! ## From afar -/

/-- What a failure of a knowledge base is to a client. -/
def remoteFailure (e : ReasoningError) : ClientError := .remote e.httpStatus e.code e.message

/-- No failure has the status of a success. -/
theorem not_httpStatus_lt (e : ReasoningError) : ¬e.httpStatus < 400 := by
  cases e <;> simp [ReasoningError.httpStatus]

/-- **A response that tells the outcome of a call** is read as that outcome. -/
theorem ask_of_tells {t : Transport} {q : HttpRequest} {r : HttpResponse}
    {outcome : Except ReasoningError Answer} (answered : t q = .ok r) (tells : m.Tells r outcome) :
    ask t m.answer q = outcome.mapError remoteFailure := by
  cases outcome with
  | ok a =>
    obtain ⟨status, read⟩ := tells
    rw [ask, send, answered]
    dsimp only
    rw [if_pos (by rw [status]; decide)]
    dsimp only
    rw [read]
    rfl
  | error e =>
    obtain ⟨status, read⟩ := tells
    rw [ask, send, answered]
    dsimp only
    rw [if_neg (by rw [status]; exact not_httpStatus_lt e), failureOf, read, status]
    rfl

/-- A transport that takes the requests of a client to a service in some state. -/
def Leads (t : Transport) (e : UrlEncoding) (base : String)
    (f : Front) (holder : Holder) (registry : Registry) : Prop :=
  ∀ q, t q = .ok (f.serve holder.current registry (e.arriving base q)).1

/-- **The law of clients.** A client of an ontology with a plain name answers a call as the
knowledge base at the service does, and the service is left as that call leaves it. -/
theorem serve_afar {f : Front} {routes : List Route} (serves : f.Serves routes)
    (ours : Route.ofKnowledgeBases ⊆ routes) {holder : Holder} {g : Generation}
    (current : holder.current = some g) {id : BaseId} (known : g.find c.ontology = .ok id)
    {registry : Registry} {kb : KnowledgeBase} (held : registry.get? id = some kb)
    (posts : call.message? = some m) (fits : call.Fits kb) (plain : Plain c.ontology)
    {t : Transport} (leads : Leads t e c.base f holder registry)
    (apart : ∀ r ∈ routes, r.path ∉ Route.ofKnowledgeBases.map Route.path →
      (ofString r.path).match?
        (e.arriving c.base (c.request m.operation m.body)).path.toList = none) :
    c.serve t call = (kb.serve call).1.mapError remoteFailure ∧
      (f.serve holder.current registry (e.arriving c.base (c.request m.operation m.body))).2.2
        = registry.set id (kb.serve call).2 := by
  have posted := posted_arriving e c posts plain
  obtain ⟨handler, found, handles⟩ := serves.exists_found ours posts fits posted apart
  obtain ⟨response, left⟩ := Front.serve_of_find found serves.isOpen holder.current registry
  rw [left]
  refine ⟨?_, (handles _ registry id (Route.base_eq rfl current known) held rfl).2⟩
  rw [serve_of_message t posts, post]
  refine ask_of_tells (leads _) ?_
  rw [response, posted.method, Front.answering_post]
  exact (handles _ registry id (Route.base_eq rfl current known) held rfl).1

/-- A knowledge base without axioms, of an ontology that has a blank in its name. -/
def zoo : KnowledgeBase :=
  { name := "city zoo", reasoner := .new "city zoo", explainer := { policy := .forward } }

/-- A client that sends it a batch is told that the batch was taken in. -/
theorem zoo_updated :
    let g : Generation :=
      { number := 1, loadedAt := 0, ontologies := .ofList [("city zoo", ⟨"1", 0⟩)] }
    let holder : Holder := { current := some g, policy := .forward }
    let registry : Registry := { bases := #[zoo] }
    ∃ router, Router.build Route.ofKnowledgeBases = .ok router ∧
      ∀ t, Leads t .standard "http://127.0.0.1:18080" { router := router.withShutdown } holder
          registry →
        serve ⟨"http://127.0.0.1:18080", "city zoo"⟩ t (.update Front.dogs ∅)
          = .ok (.summary ⟨1, 0, 1⟩) := by
  intro g holder registry
  have built : Router.build Route.ofKnowledgeBases = .ok _ :=
    Router.build_ok (by decide) (by simp [Route.ofKnowledgeBases, servedMethods])
  refine ⟨_, built, fun t leads => ?_⟩
  have known : g.find "city zoo" = .ok 0 := by
    rw [Generation.find, show g.ontologies.get? "city zoo" = some ⟨"1", 0⟩ from
      Table.get?_insert_self "city zoo" _ ∅]
  have fits : (Call.update Front.dogs ∅).Fits zoo := ⟨by decide, by decide, by decide⟩
  have answer : (zoo.serve (.update Front.dogs ∅)).1 = .ok (.summary ⟨1, 0, 1⟩) := by cbv
  have posts : (Call.update Front.dogs ∅).message? = some _ := rfl
  have told := serve_afar (c := ⟨"http://127.0.0.1:18080", "city zoo"⟩)
    ⟨⟨_, built, .inr rfl⟩, fun _ => rfl⟩ (List.Subset.refl Route.ofKnowledgeBases)
    (show holder.current = some g from rfl) known (show registry.get? 0 = some zoo from rfl) posts
    fits (by decide) leads fun r member other => absurd (List.mem_map_of_mem member) other
  rw [told.1, answer]
  rfl

/-- The ontology of pets is found. The blanks in its name have no place in a URL, and the percent
sign has one without being read as part of an escape. -/
theorem pets_named : ∃ m, (Call.entailed (.subClassOf ⟨"Cat"⟩ ⟨"Animal"⟩)).message? = some m ∧
    Route.Names
      (UrlEncoding.standard.arriving "http://127.0.0.1:18080"
        (request ⟨"http://127.0.0.1:18080", "50% pets & more"⟩ m.operation m.body))
      m.operation "50% pets & more" := by
  have posts : (Call.entailed (.subClassOf ⟨"Cat"⟩ ⟨"Animal"⟩)).message? = some _ := rfl
  exact ⟨_, rfl, (names_arriving_iff .standard ⟨_, "50% pets & more"⟩ posts).2 (by decide)⟩

/-- A name that looks like one that is already written is taken for another. -/
theorem escaped_named : ∃ m, (Call.entailed (.subClassOf ⟨"Cat"⟩ ⟨"Animal"⟩)).message? = some m ∧
    let q := UrlEncoding.standard.arriving "http://127.0.0.1:18080"
      (request ⟨"http://127.0.0.1:18080", "%41"⟩ m.operation m.body)
    Route.Names q m.operation "A" ∧ ¬Route.Names q m.operation "%41" := by
  refine ⟨_, rfl, ?_⟩
  have named : Route.Names (UrlEncoding.standard.arriving "http://127.0.0.1:18080"
      (request ⟨"http://127.0.0.1:18080", "%41"⟩ "entails"
        (EntailsRequest.toJson ⟨.subClassOf ⟨"Cat"⟩ ⟨"Animal"⟩⟩))) "entails" "A" := by
    have decoded : Percent.decodeText? (String.ofList "%41".toList) = some "A" := by
      rw [Percent.decodeText?, toUTF8_ofList]
      decide
    rw [Route.names_iff (by decide)]
    exact ⟨_, by decide, decoded, by decide⟩
  exact ⟨named, fun named' => absurd (named.unique named') (by decide)⟩

end Client

end OntologyService
