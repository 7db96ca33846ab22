import KestrelSdk.Encoding.Url

/-! A URL put together again from its scheme, authority and path, and the parts of a URL that is
concatenated from pieces. -/

namespace KestrelSdk.Encoding.Url

open Json (Str str)

/-- What `urlsplit` keeps of a text behind the first characters. -/
def tidy (s : Str) : Str := s.filter fun c => c ≠ 9 && c ≠ 10 && c ≠ 13

end KestrelSdk.Encoding.Url
