/-!
# Status Codes

The classes of status codes that a server answers with, and their names.

## Main definitions

* `Status.reason?`: The registered name of a code.
* `Status.isSuccess`, `Status.isServerError`: Classes of codes.
* `Status.text`: A code with its name.
-/

namespace Workflow

namespace Web

namespace Status

/-- The registered codes and their names. -/
def registered : List (Nat × String) :=
  [(100, "Continue"), (101, "Switching Protocols"), (102, "Processing"), (103, "Early Hints"),
    (200, "OK"), (201, "Created"), (202, "Accepted"),
    (203, "Non Authoritative Information"), (204, "No Content"), (205, "Reset Content"),
    (206, "Partial Content"), (207, "Multi-Status"), (208, "Already Reported"), (226, "IM Used"),
    (300, "Multiple Choices"), (301, "Moved Permanently"), (302, "Found"), (303, "See Other"),
    (304, "Not Modified"), (305, "Use Proxy"), (307, "Temporary Redirect"),
    (308, "Permanent Redirect"),
    (400, "Bad Request"), (401, "Unauthorized"), (402, "Payment Required"), (403, "Forbidden"),
    (404, "Not Found"), (405, "Method Not Allowed"), (406, "Not Acceptable"),
    (407, "Proxy Authentication Required"), (408, "Request Timeout"), (409, "Conflict"),
    (410, "Gone"), (411, "Length Required"), (412, "Precondition Failed"),
    (413, "Payload Too Large"), (414, "URI Too Long"), (415, "Unsupported Media Type"),
    (416, "Range Not Satisfiable"), (417, "Expectation Failed"), (418, "I'm a teapot"),
    (421, "Misdirected Request"), (422, "Unprocessable Entity"), (423, "Locked"),
    (424, "Failed Dependency"), (425, "Too Early"), (426, "Upgrade Required"),
    (428, "Precondition Required"), (429, "Too Many Requests"),
    (431, "Request Header Fields Too Large"), (451, "Unavailable For Legal Reasons"),
    (500, "Internal Server Error"), (501, "Not Implemented"), (502, "Bad Gateway"),
    (503, "Service Unavailable"), (504, "Gateway Timeout"), (505, "HTTP Version Not Supported"),
    (506, "Variant Also Negotiates"), (507, "Insufficient Storage"), (508, "Loop Detected"),
    (510, "Not Extended"), (511, "Network Authentication Required")]

/-- The registered name of a code. -/
def reason? (code : Nat) : Option String :=
  (registered.find? fun entry => entry.1 = code).map (·.2)

/-- Whether a request succeeded. -/
def isSuccess (code : Nat) : Bool := 200 ≤ code && code < 300

/-- Whether the server is to blame. -/
def isServerError (code : Nat) : Bool := 500 ≤ code && code < 600

/-- Whether a code sends to another page, if the answer names one. -/
def isRedirect (code : Nat) : Bool := [301, 302, 303, 307, 308].contains code

/-- Whether an answer with this code has no body. -/
def isBodiless (code : Nat) : Bool := code = 204 || code = 304 || code < 200

/-- Whether a code only announces another answer. -/
def isInterim (code : Nat) : Bool := 100 ≤ code && code < 200 && code ≠ 101

/-- A code with its name. -/
def text (code : Nat) : String := "HTTP " ++ toString code ++ " " ++ (reason? code).getD "Unknown"

end Status

end Web

end Workflow
