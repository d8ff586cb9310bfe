import Dropway.Edge.Banner
import Dropway.Edge.Worker
import Dropway.Lib.Scalars

/-! The markup that the Worker puts into pages (src/banner.ts, src/chat.ts, src/embed.ts).
What it says is left open; its length is that of its bytes. -/

namespace Dropway.Edge
open Lib Units

structure Markups where
  banner : Text
  chatPill : Text
  embedBadge : Text

section Inject

variable (endsWord : Units → Units → Bool)

/-- `injectAfterBodyOpen` on a page that was decoded, as it is encoded again. -/
def injectMarkup (markup html : Text) : Text := toText (injectAfterBodyOpen endsWord (ofText html) (ofText markup))

def Pages.withMarkups (pages : Pages) (markups : Markups) : Pages :=
  { pages with
    injectBanner := injectMarkup endsWord markups.banner
    injectChatPill := injectMarkup endsWord markups.chatPill
    injectEmbedBadge := injectMarkup endsWord markups.embedBadge
    bannerByteLength := (Utf8.encode markups.banner).length
    chatPillByteLength := (Utf8.encode markups.chatPill).length
    embedBadgeByteLength := (Utf8.encode markups.embedBadge).length }

def Setting.withMarkups (s : Setting) (markups : Markups) : Setting :=
  { s with pages := s.pages.withMarkups endsWord markups }

end Inject
end Dropway.Edge
