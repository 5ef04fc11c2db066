import QuarkChain.Core
import QuarkChain.Doubles
import QuarkChain.Serializer
import QuarkChain.SerializerModes
import QuarkChain.SerializerOrder
import QuarkChain.SerializerProgress
import QuarkChain.SerializerDelivery
import QuarkChain.SerializerTips
import QuarkChain.BringUp
import QuarkChain.Selection
import QuarkChain.SelectionReference
import QuarkChain.SelectionOdds
import QuarkChain.Mining
import QuarkChain.RootBlock
import QuarkChain.Requests
import QuarkChain.Peers
import QuarkChain.Stats
