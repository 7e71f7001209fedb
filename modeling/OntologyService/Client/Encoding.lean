import OntologyService.Client.Remote
import OntologyService.Http.Percent

/-!
# The way of a request to the service

A client hands the URL of a request to a library, which writes the characters that have no place in
a URL as octets with percent signs. Which characters these are is the library's own affair. It
takes the URL for one that means what it says, so a percent sign stays as it is, and so do the
delimiters of a path: what follows a question mark or a number sign is no part of the path that
arrives.

This is what a library does with each character by itself. A real one looks at more: it drops tabs
and line ends, reads a backslash as a slash, and leaves out a segment that is one point, and with
one that is two points the segment in front of it too. Names with such characters or segments are
outside of what is assumed here.
-/

namespace OntologyService

/-- A library that writes URLs, by the characters that it finds no place for in one. -/
structure UrlEncoding where
  foreign : Char → Bool
  meaning : ∀ c ∈ ['/', '?', '#', '%'], foreign c = false
  alphanumeric : ∀ c : Char, c.isAlphanum = true → foreign c = false

namespace UrlEncoding

/-- What a character is written as. -/
def writeChar (e : UrlEncoding) (c : Char) : List Char :=
  if e.foreign c then (String.utf8EncodeChar c).flatMap Percent.escapeOctet else [c]

/-- What a text is written as. -/
def write (e : UrlEncoding) (cs : List Char) : List Char := cs.flatMap e.writeChar

/-- A request to a URL as the service at the base of the URL gets it. -/
def arriving (e : UrlEncoding) (base : String) (q : HttpRequest) : HttpRequest :=
  let target := q.path.toList.drop base.toList.length
  .ofTarget q.method (String.ofList (e.write target)) q.body

/-- The library that finds a place for what may stand in a URL, and for nothing else. -/
def standard : UrlEncoding where
  foreign c := !(c.isAlphanum || ("-._~!$&()*+,;=:@/?#[]%".toList.contains c) || c = '\x27')
  meaning c among := by
    simp only [List.mem_cons, List.not_mem_nil, or_false] at among
    rcases among with rfl | rfl | rfl | rfl <;> decide
  alphanumeric c letter := by simp [letter]

end UrlEncoding

end OntologyService
