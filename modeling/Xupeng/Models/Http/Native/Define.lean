import Mathlib.Data.Char
import Mathlib.Data.List.Lex
import Xupeng.Core.CString
import Xupeng.Core.Dictionary

/-!
# Methods, statuses and maps of messages

The text of a method or a status is the name of the table as the preprocessor writes it, with
blanks around the operators. The maps compare names with `strcasecmp`.
-/

namespace Xupeng.Http

/-- `HttpMethod` -/
inductive HttpMethod
  | delete
  | get
  | head
  | post
  | put
  | connect
  | options
  | trace
  | copy
  | lock
  | mkcol
  | move
  | propfind
  | proppatch
  | search
  | unlock
  | bind
  | rebind
  | unbind
  | acl
  | report
  | mkactivity
  | checkout
  | merge
  | msearch
  | notify
  | subscribe
  | unsubscribe
  | patch
  | purge
  | mkcalendar
  | link
  | unlink
  | source
  | invalidMethod
  deriving DecidableEq, Repr

/-- `HttpMethodToString` -/
def httpMethodToString : HttpMethod → String
  | .delete => "DELETE"
  | .get => "GET"
  | .head => "HEAD"
  | .post => "POST"
  | .put => "PUT"
  | .connect => "CONNECT"
  | .options => "OPTIONS"
  | .trace => "TRACE"
  | .copy => "COPY"
  | .lock => "LOCK"
  | .mkcol => "MKCOL"
  | .move => "MOVE"
  | .propfind => "PROPFIND"
  | .proppatch => "PROPPATCH"
  | .search => "SEARCH"
  | .unlock => "UNLOCK"
  | .bind => "BIND"
  | .rebind => "REBIND"
  | .unbind => "UNBIND"
  | .acl => "ACL"
  | .report => "REPORT"
  | .mkactivity => "MKACTIVITY"
  | .checkout => "CHECKOUT"
  | .merge => "MERGE"
  | .msearch => "M - SEARCH"
  | .notify => "NOTIFY"
  | .subscribe => "SUBSCRIBE"
  | .unsubscribe => "UNSUBSCRIBE"
  | .patch => "PATCH"
  | .purge => "PURGE"
  | .mkcalendar => "MKCALENDAR"
  | .link => "LINK"
  | .unlink => "UNLINK"
  | .source => "SOURCE"
  | .invalidMethod => "<unknown>"

/-- `HttpStatus` -/
inductive HttpStatus
  | «continue»
  | switchingProtocols
  | processing
  | ok
  | created
  | accepted
  | nonAuthoritativeInformation
  | noContent
  | resetContent
  | partialContent
  | multiStatus
  | alreadyReported
  | imUsed
  | multipleChoices
  | movedPermanently
  | found
  | seeOther
  | notModified
  | useProxy
  | temporaryRedirect
  | permanentRedirect
  | badRequest
  | unauthorized
  | paymentRequired
  | forbidden
  | notFound
  | methodNotAllowed
  | notAcceptable
  | proxyAuthenticationRequired
  | requestTimeout
  | conflict
  | gone
  | lengthRequired
  | preconditionFailed
  | payloadTooLarge
  | uriTooLong
  | unsupportedMediaType
  | rangeNotSatisfiable
  | expectationFailed
  | misdirectedRequest
  | unprocessableEntity
  | locked
  | failedDependency
  | upgradeRequired
  | preconditionRequired
  | tooManyRequests
  | requestHeaderFieldsTooLarge
  | unavailableForLegalReasons
  | internalServerError
  | notImplemented
  | badGateway
  | serviceUnavailable
  | gatewayTimeout
  | httpVersionNotSupported
  | variantAlsoNegotiates
  | insufficientStorage
  | loopDetected
  | notExtended
  | networkAuthenticationRequired
  deriving DecidableEq, Repr

/-- `HTTP_STATUS_MAP`: the number of a status and its text -/
def HttpStatus.row : HttpStatus → Nat × String
  | .«continue» => (100, "Continue")
  | .switchingProtocols => (101, "Switching Protocols")
  | .processing => (102, "Processing")
  | .ok => (200, "OK")
  | .created => (201, "Created")
  | .accepted => (202, "Accepted")
  | .nonAuthoritativeInformation => (203, "Non - Authoritative Information")
  | .noContent => (204, "No Content")
  | .resetContent => (205, "Reset Content")
  | .partialContent => (206, "Partial Content")
  | .multiStatus => (207, "Multi - Status")
  | .alreadyReported => (208, "Already Reported")
  | .imUsed => (226, "IM Used")
  | .multipleChoices => (300, "Multiple Choices")
  | .movedPermanently => (301, "Moved Permanently")
  | .found => (302, "Found")
  | .seeOther => (303, "See Other")
  | .notModified => (304, "Not Modified")
  | .useProxy => (305, "Use Proxy")
  | .temporaryRedirect => (307, "Temporary Redirect")
  | .permanentRedirect => (308, "Permanent Redirect")
  | .badRequest => (400, "Bad Request")
  | .unauthorized => (401, "Unauthorized")
  | .paymentRequired => (402, "Payment Required")
  | .forbidden => (403, "Forbidden")
  | .notFound => (404, "Not Found")
  | .methodNotAllowed => (405, "Method Not Allowed")
  | .notAcceptable => (406, "Not Acceptable")
  | .proxyAuthenticationRequired => (407, "Proxy Authentication Required")
  | .requestTimeout => (408, "Request Timeout")
  | .conflict => (409, "Conflict")
  | .gone => (410, "Gone")
  | .lengthRequired => (411, "Length Required")
  | .preconditionFailed => (412, "Precondition Failed")
  | .payloadTooLarge => (413, "Payload Too Large")
  | .uriTooLong => (414, "URI Too Long")
  | .unsupportedMediaType => (415, "Unsupported Media Type")
  | .rangeNotSatisfiable => (416, "Range Not Satisfiable")
  | .expectationFailed => (417, "Expectation Failed")
  | .misdirectedRequest => (421, "Misdirected Request")
  | .unprocessableEntity => (422, "Unprocessable Entity")
  | .locked => (423, "Locked")
  | .failedDependency => (424, "Failed Dependency")
  | .upgradeRequired => (426, "Upgrade Required")
  | .preconditionRequired => (428, "Precondition Required")
  | .tooManyRequests => (429, "Too Many Requests")
  | .requestHeaderFieldsTooLarge => (431, "Request Header Fields Too Large")
  | .unavailableForLegalReasons => (451, "Unavailable For Legal Reasons")
  | .internalServerError => (500, "Internal Server Error")
  | .notImplemented => (501, "Not Implemented")
  | .badGateway => (502, "Bad Gateway")
  | .serviceUnavailable => (503, "Service Unavailable")
  | .gatewayTimeout => (504, "Gateway Timeout")
  | .httpVersionNotSupported => (505, "HTTP Version Not Supported")
  | .variantAlsoNegotiates => (506, "Variant Also Negotiates")
  | .insufficientStorage => (507, "Insufficient Storage")
  | .loopDetected => (508, "Loop Detected")
  | .notExtended => (510, "Not Extended")
  | .networkAuthenticationRequired => (511, "Network Authentication Required")

/-- `HttpStatusToString` -/
def httpStatusToString (s : HttpStatus) : String := s.row.2

/-- `std::map<std::string, std::string, CaseInsensitiveLess>` -/
abbrev MapType : Type := Dictionary caseKey (List Char)

end Xupeng.Http
